import Mathlib.Algebra.Order.Field.Basic
import Mathlib.Order.Monotone.Defs
import Mathlib.Tactic.Ring
import Credence.Proofs.Decay.Fading

/-! # The built-in curves

Each of the built-in curves answers with a part of the whole at every time and with no more of it
later on, whether it falls all the time, ends at two half-lives or drops at one. So they age every
opinion, and what is later believed or disbelieved is never more; what is uncertain is never less.
-/

namespace Credence
open Scalar (InUnit)
open Elementary (exp2)
variable {K : Type} [Field K] [LinearOrder K]

/-- Powers of two grow with the exponent, and lie in the unit interval, where it is not positive. -/
structure Halving (K : Type) [Field K] [LinearOrder K] [Elementary K] : Prop where
  monotoneOn : MonotoneOn (exp2 : K → K) (Set.Iic 0)
  inUnit : ∀ v : K, v ≤ 0 → InUnit (exp2 v)

theorem halving_real : Halving ℝ where
  monotoneOn := Scalar.exp2_monotone.monotoneOn _
  inUnit _ := Scalar.inUnit_exp2

variable [IsStrictOrderedRing K]

namespace DecayCurve
variable {elapsed halfLife : K}

theorem exponent_nonpos (passed : 0 ≤ elapsed) (measured : 0 < halfLife) :
    -elapsed / halfLife ≤ 0 :=
  div_nonpos_of_nonpos_of_nonneg (neg_nonpos.2 passed) measured.le

theorem double_nonneg (measured : 0 < halfLife) : (0 : K) ≤ (2 : ℕ) * halfLife :=
  mul_nonneg (Nat.cast_nonneg 2) measured.le

variable [Elementary K]

theorem inUnit_factor (h : Halving K) (curve : DecayCurve) (passed : 0 ≤ elapsed)
    (measured : 0 < halfLife) : InUnit (curve.factor elapsed halfLife) := by
  cases curve with
  | exponential => exact h.inUnit _ (exponent_nonpos passed measured)
  | linear =>
    rw [factor, Scalar.notBelowZero_eq]
    constructor
    · exact le_max_left _ _
    · exact max_le zero_le_one (sub_le_self 1 (div_nonneg passed (double_nonneg measured)))
  | step =>
    change InUnit (if elapsed < halfLife then 1 else 0)
    split
    · exact ⟨zero_le_one, le_rfl⟩
    · exact ⟨le_rfl, zero_le_one⟩

theorem factor_antitoneOn (h : Halving K) (curve : DecayCurve) (measured : 0 < halfLife) :
    AntitoneOn (fun elapsed => curve.factor elapsed halfLife) (Set.Ici 0) := by
  intro early passed late passed' later
  change curve.factor late halfLife ≤ curve.factor early halfLife
  cases curve with
  | exponential =>
    apply h.monotoneOn (exponent_nonpos passed' measured) (exponent_nonpos passed measured)
    exact div_le_div_of_nonneg_right (neg_le_neg later) measured.le
  | linear =>
    simp only [factor, Scalar.notBelowZero_eq]
    apply max_le_max_left 0
    apply sub_le_sub_left
    exact div_le_div_of_nonneg_right later (double_nonneg measured)
  | step =>
    -- What is left at the later time, if anything, was left at the earlier one.
    by_cases left : late < halfLife
    · rw [factor, factor, if_pos left, if_pos (later.trans_lt left)]
    · rw [factor, if_neg left]
      exact (inUnit_factor h .step passed measured).1

theorem admits (h : Halving K) (curve : DecayCurve) (passed : 0 ≤ elapsed)
    (measured : 0 < halfLife) : Opinion.Admits curve.factor elapsed halfLife :=
  ⟨passed, measured, curve.inUnit_factor h passed measured⟩

end DecayCurve

namespace Opinion
variable {o y z : Opinion K} {part part' : K}

/-- No more is believed and no more disbelieved, in the same ratio, and the base rate is kept. -/
structure Weaker (o z : Opinion K) : Prop where
  belief : z.belief ≤ o.belief
  disbelief : z.disbelief ≤ o.disbelief
  ratio : z.belief * o.disbelief = z.disbelief * o.belief
  baseRate : z.baseRate = o.baseRate

theorem Faded.weaker (h : Faded part o z) (most : part ≤ 1) : Weaker o z where
  belief := h.belief.trans_le (mul_le_of_le_one_right o.bounds.belief.1 most)
  disbelief := h.disbelief.trans_le (mul_le_of_le_one_right o.bounds.disbelief.1 most)
  ratio := by
    rw [h.belief, h.disbelief]
    ring
  baseRate := h.baseRate

theorem Faded.weaker_of_le (h : Faded part o y) (h' : Faded part' o z) (less : part' ≤ part) :
    Weaker y z where
  belief := by
    rw [h.belief, h'.belief]
    exact mul_le_mul_of_nonneg_left less o.bounds.belief.1
  disbelief := by
    rw [h.disbelief, h'.disbelief]
    exact mul_le_mul_of_nonneg_left less o.bounds.disbelief.1
  ratio := by
    rw [h.belief, h.disbelief, h'.belief, h'.disbelief]
    ring
  baseRate := h'.baseRate.trans h.baseRate.symm

theorem Faded.uncertainty_le (h : Faded part o y) (h' : Faded part' o z) (weaker : Weaker y z) :
    y.uncertainty ≤ z.uncertainty := by
  rw [h.uncertainty, h'.uncertainty]
  exact Scalar.clampUnit_monotone
    (sub_le_sub (sub_le_sub_left weaker.belief 1) weaker.disbelief)

/-- An opinion ages by every built-in curve at every time, and weakens with it: belief and disbelief
are no more than they were, and at a later time no more than at an earlier one, their ratio and the
base rate are kept, and at the later time no less is uncertain. -/
theorem builtin_decay_weakens [Elementary K] (h : Halving K) (o : Opinion K) (curve : DecayCurve)
    {early late halfLife : K} (measured : 0 < halfLife) (passed : 0 ≤ early)
    (later : early ≤ late) :
    ∃ y z, o.decay early halfLife curve.factor = .ok y ∧
      o.decay late halfLife curve.factor = .ok z ∧
      Weaker o y ∧ Weaker o z ∧ Weaker y z ∧ y.uncertainty ≤ z.uncertainty := by
  have passed' : 0 ≤ late := passed.trans later
  have admitted := curve.admits h passed measured
  have admitted' := curve.admits h passed' measured
  obtain ⟨y, made, faded⟩ := o.exists_decay admitted
  obtain ⟨z, made', faded'⟩ := o.exists_decay admitted'
  have weaker : Weaker y z :=
    faded.weaker_of_le faded' (curve.factor_antitoneOn h measured passed passed' later)
  exact ⟨y, z, made, made', faded.weaker admitted.part.2, faded'.weaker admitted'.part.2, weaker,
    faded.uncertainty_le faded' weaker⟩

/-- Belief and disbelief exceed one unit, and one and a half half-lives are more than one. -/
theorem builtin_decay_weakens_brimming :
    ∃ y z : Opinion ℝ, brimming.decay 0 4 DecayCurve.exponential.factor = .ok y ∧
      brimming.decay 6 4 DecayCurve.exponential.factor = .ok z ∧ Weaker brimming y ∧
      Weaker brimming z ∧ Weaker y z ∧ y.uncertainty ≤ z.uncertainty :=
  builtin_decay_weakens halving_real brimming .exponential (by norm_num) (by norm_num)
    (by norm_num)

end Opinion
end Credence
