import Mathlib.Algebra.Order.Field.Basic
import Mathlib.Tactic.NormNum
import Credence.Proofs.Scalar.Real
import Credence.Proofs.Score.Combination
import Credence.Proofs.Score.Propagation

/-! # Methods compared

What the methods make of the same scores can be compared, without rounding, whichever the scores
are. Pooled masses come to the probability that at least one source is right, and no step on the
way rescales them. A product is no more than the smallest score, which an average does not fall
below; it is no more than the largest score, which combined evidence does not fall below either.
-/

namespace Credence
open Scalar (InUnit)
variable {K : Type} [Field K] [LinearOrder K]

theorem smallest_cons (first : K) (rest : List K) :
    smallest (first :: rest) = rest.foldl min first := by
  have step : (Scalar.smaller : K → K → K) = min := funext₂ Scalar.smaller_eq_min
  rw [smallest, step]

theorem smallest_isLeast {scores : List K} (present : scores ≠ []) :
    IsLeast {s | s ∈ scores} (smallest scores) := by
  cases scores with
  | nil => exact absurd rfl present
  | cons first rest =>
    have least : (first :: rest).min? = some (smallest (first :: rest)) := by
      rw [List.min?_cons', smallest_cons]
    exact List.min?_eq_some_iff.1 least

variable [IsStrictOrderedRing K] {scores : List K}

theorem smallest_le_mean (present : scores ≠ []) : smallest scores ≤ Scalar.mean scores := by
  simpa using Scalar.le_mean (f := id) present (smallest_isLeast present).2

theorem mean_le_largest (present : scores ≠ []) : Scalar.mean scores ≤ largest scores := by
  have most : ∀ s ∈ scores, s ≤ largest scores :=
    fun s hs => (largest_isGreatest scores).2 (List.mem_cons_of_mem 0 hs)
  simpa using Scalar.mean_le (f := id) present most

/-- Pooled masses come to the same score as the noisy or. Pooling never ends early: each source
joins the masses of those before it and leaves masses that total one, so that these are not
rescaled. -/
theorem pooling_is_noisyOr {first : K} {rest : List K} (units : ∀ s ∈ first :: rest, InUnit s) :
    ∃ pooled noisy, combine (first :: rest) .dempsterShafer = .ok pooled ∧
      combine (first :: rest) .noisyOr = .ok noisy ∧ pooled.score = noisy.score ∧
      (∃ m, rest.foldlM Pool.next? (.ofScore first) = some m ∧ m.belief = pooled.score) ∧
      ∀ before p after, rest = before ++ p :: after →
        ∃ m, before.foldlM Pool.next? (.ofScore first) = some m ∧ (m.joined p).total = 1 ∧
          m.next? p = some (m.joined p) := by
  have present := List.cons_ne_nil first rest
  have same := Combination.raw_dempsterShafer (first :: rest)
  refine ⟨_, _, combine_eq_raw .dempsterShafer present units, combine_eq_raw .noisyOr present units,
    same, ⟨_, Pool.foldlM_next? first rest, same.symm⟩, ?_⟩
  intro before p after _
  refine ⟨_, Pool.foldlM_next? first before, ?_, ?_⟩
  · rw [Pool.joined_ofScore, Pool.total_ofScore]
  · rw [Pool.joined_ofScore, Pool.next?_ofScore]

/-- The second source is certain, so that nothing is left uncertain for the third one to join. -/
theorem pooling_is_noisyOr_certain :
    ∃ pooled noisy, combine [9 / 10, 1, (0 : ℚ)] .dempsterShafer = .ok pooled ∧
      combine [9 / 10, 1, (0 : ℚ)] .noisyOr = .ok noisy ∧ pooled.score = noisy.score ∧
      ∃ m, [(1 : ℚ)].foldlM Pool.next? (.ofScore (9 / 10)) = some m ∧ m.uncertainty = 0 ∧
        (m.joined 0).total = 1 := by
  have units : ∀ s ∈ [9 / 10, 1, (0 : ℚ)], InUnit s := by decide +kernel
  obtain ⟨pooled, noisy, made, made', same, -, steps⟩ := pooling_is_noisyOr units
  obtain ⟨m, reached, total, -⟩ := steps [1] 0 [] rfl
  refine ⟨pooled, noisy, made, made', same, m, reached, ?_, total⟩
  obtain rfl := Option.some.inj ((Pool.foldlM_next? (9 / 10) [1]).symm.trans reached)
  decide +kernel

/-- What the methods make of scores is ordered, and none of it is clamped. The product, the smallest
score, the average, the largest score and the noisy or do not fall in this order, where the average
is the same along a chain as across sources. Pooled masses come to no less than the largest score
either. -/
theorem methods_ordered [Elementary K] (present : scores ≠ []) (units : ∀ s ∈ scores, InUnit s) :
    (∀ method ∈ [Propagation.multiply, .min, .average],
      propagate scores method = .ok ⟨method.raw scores, method, scores, []⟩) ∧
    (∀ method : Combination,
      combine scores method = .ok ⟨method.raw scores, method, scores⟩) ∧
    Propagation.multiply.raw scores ≤ Propagation.min.raw scores ∧
    Propagation.min.raw scores ≤ Propagation.average.raw scores ∧
    Propagation.average.raw scores = Combination.average.raw scores ∧
    Combination.average.raw scores ≤ Combination.max.raw scores ∧
    Combination.max.raw scores ≤ Combination.noisyOr.raw scores ∧
    Combination.noisyOr.raw scores ≤ 1 ∧
    Combination.max.raw scores ≤ Combination.dempsterShafer.raw scores := by
  have least := smallest_isLeast present
  have product : Propagation.multiply.raw scores = scores.prod := Scalar.product_eq scores
  have below : scores.prod ≤ smallest scores := Scalar.prod_le_of_mem units least.1
  have evident := largest_le_noisyOr units
  refine ⟨?_, fun method => combine_eq_raw method present units, product.trans_le below,
    smallest_le_mean present, rfl, mean_le_largest present, evident, (noisyOr_inUnit units).2,
    evident.trans_eq (Combination.raw_dempsterShafer scores).symm⟩
  simp only [List.forall_mem_cons]
  refine ⟨?_, ?_, ?_, List.forall_mem_nil _⟩ <;> apply propagate_eq_raw present units
  · rw [product]
    exact Scalar.inUnit_prod units
  · exact units _ least.1
  · exact Combination.average.raw_inUnit present units

theorem methods_ordered_extremes :
    ∃ product mean noisy, propagate [0, 1 / 4, (1 : ℝ)] .multiply = .ok product ∧
      combine [0, 1 / 4, (1 : ℝ)] .average = .ok mean ∧
      combine [0, 1 / 4, (1 : ℝ)] .noisyOr = .ok noisy ∧ product.score ≤ mean.score ∧
      mean.score ≤ noisy.score ∧ noisy.score = 1 := by
  have units : ∀ s ∈ [0, 1 / 4, (1 : ℝ)], InUnit s := by
    simp only [List.forall_mem_cons, Scalar.inUnit_iff]
    norm_num
  obtain ⟨chain, sources, below, least, same, most, evident, bounded, -⟩ :=
    methods_ordered (List.cons_ne_nil _ _) units
  refine ⟨_, _, _, chain .multiply (by simp), sources .average, sources .noisyOr,
    below.trans (least.trans_eq same), most.trans evident, le_antisymm bounded ?_⟩
  exact le_noisyOr units (by simp)

end Credence
