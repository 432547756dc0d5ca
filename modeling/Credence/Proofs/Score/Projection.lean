import Mathlib.Tactic.Linarith
import Mathlib.Tactic.NormNum
import Mathlib.Tactic.Ring
import Credence.Proofs.Opinion.Tolerance
import Credence.Proofs.Scalar.Real
import Credence.Proofs.Score.Combination
import Credence.Proofs.Score.Propagation

/-! # Opinions as scores

An opinion projects to a number that is not negative and exceeds one by no more than the tolerance.
It is a score unless the masses exceed one unit by more than disbelief and that part of uncertainty
which the base rate leaves out; and where it is none, it cannot be used in place of one.
-/

namespace Credence.Opinion
open Scalar (InUnit)
variable {K : Type} [Field K] [LinearOrder K]

theorem projected_eq (o : Opinion K) :
    o.projected = 1 + (o.excess - (o.disbelief + (1 - o.baseRate) * o.uncertainty)) := by
  rw [projected, excess]
  ring

variable [IsStrictOrderedRing K]

theorem projected_nonneg (o : Opinion K) : 0 ≤ o.projected := by
  obtain ⟨hb, -, hu, ha, -⟩ := o.bounds
  exact add_nonneg hb.1 (mul_nonneg ha.1 hu.1)

theorem leftOut_nonneg (o : Opinion K) :
    0 ≤ o.disbelief + (1 - o.baseRate) * o.uncertainty := by
  obtain ⟨-, hd, hu, ha, -⟩ := o.bounds
  exact add_nonneg hd.1 (mul_nonneg (sub_nonneg.2 ha.2) hu.1)

theorem projected_le (o : Opinion K) : o.projected ≤ 1 + tolerance := by
  have most : o.excess ≤ tolerance := (le_abs_self _).trans o.abs_excess_le
  rw [projected_eq]
  linarith [o.leftOut_nonneg]

/-- An opinion projects to a score unless its masses exceed one unit by more than projection
leaves out. -/
theorem inUnit_projected_iff (o : Opinion K) :
    InUnit o.projected ↔ o.excess ≤ o.disbelief + (1 - o.baseRate) * o.uncertainty := by
  have high : o.projected ≤ 1 ↔ o.excess ≤ o.disbelief + (1 - o.baseRate) * o.uncertainty := by
    rw [projected_eq, add_le_iff_nonpos_right, sub_nonpos]
  exact (and_iff_right o.projected_nonneg).trans high

/-- An opinion projects to a number up to one and the tolerance. A new opinion can be made of it,
and it can be combined or propagated with other scores, exactly where it is a score; and that is
where the masses do not exceed one unit by more than projection leaves out of them. -/
theorem projection_usable_iff [Elementary K] (o : Opinion K) {u a : K} (hu : InUnit u)
    (ha : InUnit a) {before after : List K} (others : ∀ s ∈ before ++ after, InUnit s) :
    0 ≤ o.projected ∧ o.projected ≤ 1 + tolerance ∧
      (InUnit o.projected ↔ o.excess ≤ o.disbelief + (1 - o.baseRate) * o.uncertainty) ∧
      ((∃ lifted, ofConfidence o.projected u a = .ok lifted) ↔ InUnit o.projected) ∧
      (∀ method, (∃ result, combine (before ++ o.projected :: after) method = .ok result) ↔
        InUnit o.projected) ∧
      ∀ method, (∃ result, propagate (before ++ o.projected :: after) method = .ok result) ↔
        InUnit o.projected := by
  have among : before ++ o.projected :: after ≠ [] := by simp
  have each : (∀ s ∈ before ++ o.projected :: after, InUnit s) ↔ InUnit o.projected := by
    obtain ⟨earlier, later⟩ := List.forall_mem_append.1 others
    rw [List.forall_mem_append, List.forall_mem_cons]
    exact ⟨fun h => h.2.1, fun unit => ⟨earlier, unit, later⟩⟩
  refine ⟨o.projected_nonneg, o.projected_le, o.inUnit_projected_iff, ?_, ?_, ?_⟩
  · rw [exists_ofConfidence_iff ha]
    exact and_iff_left hu
  · intro method
    rw [exists_combine_iff, each]
    exact and_iff_right among
  · intro method
    rw [exists_propagate_iff, each]
    exact and_iff_right among

/-- The masses of this opinion exceed one unit by half of the tolerance, but disbelief outweighs
that. -/
theorem projection_usable_disputed :
    ∃ o : Opinion ℝ, 0 < o.excess ∧ InUnit o.projected ∧
      ∃ result, propagate [9 / 10, o.projected, 4 / 5] .bayesian = .ok result := by
  have faultless : fault? (1 / 2 : ℝ) (1 / 2) (1 / 2000000000) 1 = none := by
    rw [fault?_eq_none_iff]
    norm_num [Scalar.inUnit_iff, tolerance, Scalar.oneOver]
  have zero : InUnit (0 : ℝ) := ⟨le_rfl, zero_le_one⟩
  have others : ∀ s ∈ [9 / 10] ++ [(4 / 5 : ℝ)], InUnit s := by
    norm_num [Scalar.inUnit_iff]
  obtain ⟨-, -, score, -, -, propagates⟩ :=
    projection_usable_iff ⟨_, _, _, _, faultless⟩ zero zero others
  have unit := score.2 (by norm_num [excess])
  refine ⟨_, ?_, unit, (propagates .bayesian).2 unit⟩
  norm_num [excess]

def overfull : Opinion ℚ := ⟨1, 0, 1 / 2000000000, 1, by decide +kernel⟩

/-- What it projects to is no score, so that neither an opinion nor a combined score can be made
of it. -/
theorem overfull_projects_above :
    ¬ InUnit overfull.projected ∧ (ofConfidence overfull.projected 0 (1 / 2)).isOk = false ∧
      (combine [overfull.projected] .noisyOr).isOk = false := by
  decide +kernel

end Credence.Opinion
