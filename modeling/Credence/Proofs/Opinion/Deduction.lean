import Mathlib.Algebra.Order.Field.Basic
import Mathlib.Analysis.Convex.Segment
import Mathlib.Tactic.LinearCombination
import Credence.Proofs.Opinion.Wholeness
import Credence.Proofs.Score.Projection

/-! # Deduction counts by projection

An antecedent counts the conditional that it holds by belief, the other one by disbelief, and shares
its uncertain mass out between the two by its base rate. Where its masses make up one unit this
comes to a mixture of two: the conditional that it holds counts by the projected probability of the
antecedent, the other one by the rest of the unit. So nothing that deduction arrives at lies outside
the two conditionals, and where these leave nothing uncertain it is the law of total probability.
-/

namespace Credence.Opinion
open Scalar (InUnit)
variable {K : Type} [Field K] [LinearOrder K] {x p n : Opinion K}

/-- What projection leaves out of one unit is the weight of the other conditional. -/
theorem Whole.mix_eq (hx : Whole x) (v w : K) :
    x.mix v w = x.projected * v + (1 - x.projected) * w := by
  have sum : x.belief + x.disbelief + x.uncertainty = 1 := hx
  rw [mix, projected]
  linear_combination w * sum

variable [IsStrictOrderedRing K]

theorem Whole.inUnit_projected (hx : Whole x) : InUnit x.projected := by
  have balanced : x.excess = 0 := sub_eq_zero.2 hx
  rw [inUnit_projected_iff, balanced]
  exact x.leftOut_nonneg

theorem mixture_mem_uIcc {share : K} (h : InUnit share) (v w : K) :
    share * v + (1 - share) * w ∈ Set.uIcc v w := by
  rw [← segment_eq_uIcc]
  exact ⟨share, 1 - share, h.1, sub_nonneg.2 h.2, add_sub_cancel share 1, rfl⟩

theorem inUnit_mixture {share v w : K} (h : InUnit share) (hv : InUnit v) (hw : InUnit w) :
    InUnit (share * v + (1 - share) * w) :=
  Set.uIcc_subset_Icc hv hw (mixture_mem_uIcc h v w)

theorem mix_whole (hx : Whole x) (hp : Whole p) (hn : Whole n) :
    x.mix p.belief n.belief + x.mix p.disbelief n.disbelief + x.mix p.uncertainty n.uncertainty =
      1 := by
  have sum : p.belief + p.disbelief + p.uncertainty = 1 := hp
  have sum' : n.belief + n.disbelief + n.uncertainty = 1 := hn
  simp only [hx.mix_eq]
  linear_combination x.projected * sum + (1 - x.projected) * sum'

theorem fault?_deduced (hx : Whole x) (hp : Whole p) (hn : Whole n) :
    fault? (x.mix p.belief n.belief) (x.mix p.disbelief n.disbelief)
      (x.mix p.uncertainty n.uncertainty)
      (x.baseRate * p.projected + (1 - x.baseRate) * n.projected) = none := by
  have mixed {v w : K} (hv : InUnit v) (hw : InUnit w) : InUnit (x.mix v w) := by
    rw [hx.mix_eq]
    exact inUnit_mixture hx.inUnit_projected hv hw
  apply fault?_eq_none
  · exact mixed p.bounds.belief n.bounds.belief
  · exact mixed p.bounds.disbelief n.bounds.disbelief
  · exact mixed p.bounds.uncertainty n.bounds.uncertainty
  · exact inUnit_mixture x.bounds.baseRate hp.inUnit_projected hn.inUnit_projected
  · exact mix_whole hx hp hn

/-- Deduction from whole opinions never fails, and what it makes is whole. Belief, disbelief and
uncertainty are each those of the conditionals, mixed by the projected probability of the
antecedent, and lie between them; the base rate is what the conditionals project to, mixed by the
base rate of the antecedent. So the law of total probability holds of conditionals that leave
nothing uncertain. -/
theorem deduction_mixes_conditionals (hx : Whole x) (hp : Whole p) (hn : Whole n) :
    ∃ z, deduce x p n = .ok z ∧ Whole z ∧
      (∀ mass ∈ [belief, disbelief, uncertainty],
        mass z = x.projected * mass p + (1 - x.projected) * mass n ∧
          mass z ∈ Set.uIcc (mass p) (mass n)) ∧
      z.baseRate = x.baseRate * p.projected + (1 - x.baseRate) * n.projected ∧
      (p.uncertainty = 0 → n.uncertainty = 0 →
        z.projected = x.projected * p.projected + (1 - x.projected) * n.projected) := by
  have mixed (v w : K) : x.mix v w = x.projected * v + (1 - x.projected) * w ∧
      x.mix v w ∈ Set.uIcc v w := by
    rw [hx.mix_eq]
    exact ⟨rfl, mixture_mem_uIcc hx.inUnit_projected v w⟩
  refine ⟨_, settle_eq_ok (fault?_deduced hx hp hn), mix_whole hx hp hn, ?_, rfl, ?_⟩
  · simp only [List.forall_mem_cons]
    exact ⟨mixed _ _, mixed _ _, mixed _ _, by simp⟩
  · intro certain certain'
    simp only [projected, hx.mix_eq, certain, certain']
    ring

def rain : Opinion ℚ := ⟨1 / 2, 1 / 4, 1 / 4, 1 / 3, by decide +kernel⟩

def wetAfterRain : Opinion ℚ := ⟨9 / 10, 1 / 10, 0, 1 / 2, by decide +kernel⟩

def wetOtherwise : Opinion ℚ := ⟨1 / 5, 4 / 5, 0, 1 / 2, by decide +kernel⟩

theorem deduction_mixes_conditionals_lawn :
    ∃ z, deduce rain wetAfterRain wetOtherwise = .ok z ∧ z.belief ∈ Set.uIcc (9 / 10) (1 / 5) ∧
      z.projected = 7 / 12 * (9 / 10) + 5 / 12 * (1 / 5) := by
  have hx : Whole rain := by norm_num [Whole, rain]
  have hp : Whole wetAfterRain := by norm_num [Whole, wetAfterRain]
  have hn : Whole wetOtherwise := by norm_num [Whole, wetOtherwise]
  obtain ⟨z, made, -, masses, -, total⟩ := deduction_mixes_conditionals hx hp hn
  refine ⟨z, made, (masses belief (by simp)).2, ?_⟩
  rw [total rfl rfl]
  norm_num [projected, rain, wetAfterRain, wetOtherwise]

end Credence.Opinion
