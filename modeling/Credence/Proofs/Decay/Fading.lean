import Mathlib.Algebra.Order.Field.Basic
import Mathlib.Tactic.Linarith
import Mathlib.Tactic.NormNum
import Credence.Decay
import Credence.Proofs.Opinion.Exact
import Credence.Proofs.Scalar.Real
import Credence.Proofs.Traversal

/-! # Fading

After some time a part of belief and of disbelief is left, and what these leave of one unit is
uncertain: nothing, where they exceed the unit within the tolerance. What was uncertain before does
not count, so that an opinion which fades twice fades as it would at once by the product of the
parts, even if its masses are off one unit.
-/

namespace Credence.Opinion
open Scalar (InUnit clampUnit)
open Elementary (exp2)
variable {K : Type} [Field K] [LinearOrder K] {o y z : Opinion K} {part part' : K}

/-- A part of belief and of disbelief is left, and the rest of the unit is uncertain. -/
structure Faded (part : K) (o z : Opinion K) : Prop where
  belief : z.belief = o.belief * part
  disbelief : z.disbelief = o.disbelief * part
  uncertainty : z.uncertainty = clampUnit (1 - z.belief - z.disbelief)
  baseRate : z.baseRate = o.baseRate

theorem Faded.trans (h : Faded part o y) (h' : Faded part' y z) : Faded (part * part') o z where
  belief := by rw [h'.belief, h.belief, mul_assoc]
  disbelief := by rw [h'.disbelief, h.disbelief, mul_assoc]
  uncertainty := h'.uncertainty
  baseRate := h'.baseRate.trans h.baseRate

theorem Faded.unique (h : Faded part o y) (h' : Faded part o z) : y = z := by
  have belief : y.belief = z.belief := h.belief.trans h'.belief.symm
  have disbelief : y.disbelief = z.disbelief := h.disbelief.trans h'.disbelief.symm
  refine Opinion.ext belief disbelief ?_ (h.baseRate.trans h'.baseRate.symm)
  rw [h.uncertainty, h'.uncertainty, belief, disbelief]

/-- The curve can be asked for this time and answers with a part of the whole. -/
structure Admits (curve : K → K → K) (elapsed halfLife : K) : Prop where
  passed : 0 ≤ elapsed
  measured : 0 < halfLife
  part : InUnit (curve elapsed halfLife)

/-- Where powers of two multiply, so does what the exponential curve leaves. -/
theorem exponential_add [Elementary K] (law : ∀ v w : K, exp2 (v + w) = exp2 v * exp2 w)
    (t t' h : K) :
    DecayCurve.exponential.factor (t + t') h =
      DecayCurve.exponential.factor t h * DecayCurve.exponential.factor t' h := by
  calc exp2 (-(t + t') / h) = exp2 (-t / h + -t' / h) := by rw [neg_add, add_div]
    _ = exp2 (-t / h) * exp2 (-t' / h) := law _ _

variable [IsStrictOrderedRing K]

/-- What two masses leave of one unit makes up the unit with them, unless they exceed it. -/
theorem abs_settled_sum_le {b d slack : K} (hb : 0 ≤ b) (hd : 0 ≤ d) (hs : 0 ≤ slack)
    (most : b + d ≤ 1 + slack) : |b + d + clampUnit (1 - b - d) - 1| ≤ slack := by
  have within : max (1 - b - d) 0 ≤ 1 := max_le (by linarith) zero_le_one
  rw [Scalar.clampUnit_eq, min_eq_right within]
  rcases le_total (b + d) 1 with below | above
  · have whole : b + d + (1 - b - d) - 1 = 0 := by ring
    rwa [max_eq_left (by linarith : 0 ≤ 1 - b - d), whole, abs_zero]
  · rw [max_eq_right (by linarith : 1 - b - d ≤ 0), add_zero, abs_of_nonneg (sub_nonneg.2 above)]
    linarith

theorem belief_add_disbelief_le (o : Opinion K) : o.belief + o.disbelief ≤ 1 + tolerance := by
  have most := (abs_le.1 o.bounds.sum).2
  linarith [o.bounds.uncertainty.1]

theorem fault?_faded (o : Opinion K) (h : InUnit part) :
    fault? (o.belief * part) (o.disbelief * part)
      (clampUnit (1 - o.belief * part - o.disbelief * part)) o.baseRate = none := by
  have hb := o.bounds.belief
  have hd := o.bounds.disbelief
  have left : o.belief * part + o.disbelief * part ≤ 1 + tolerance := by
    rw [← add_mul]
    exact (mul_le_of_le_one_right (add_nonneg hb.1 hd.1) h.2).trans o.belief_add_disbelief_le
  apply fault?_eq_none_iff.2
  exact ⟨Scalar.inUnit_mul hb h, Scalar.inUnit_mul hd h, Scalar.clampUnit_inUnit _,
    o.bounds.baseRate, abs_settled_sum_le (mul_nonneg hb.1 h.1) (mul_nonneg hd.1 h.1)
      tolerance_pos.le left⟩

theorem exists_fade (o : Opinion K) (h : InUnit part) : ∃ z, o.fade part = .ok z ∧ Faded part o z :=
  ⟨_, make_eq_ok (fault?_faded o h), rfl, rfl, rfl, rfl⟩

theorem fade_eq_ok_iff (h : InUnit part) : o.fade part = .ok z ↔ Faded part o z := by
  obtain ⟨y, made, faded⟩ := o.exists_fade h
  constructor
  · intro other
    rw [← Except.ok.inj (made.symm.trans other)]
    exact faded
  · intro other
    rw [other.unique faded]
    exact made

/-- An opinion ages exactly where the curve admits the time, and fades by the part that the curve
answers with. -/
theorem decay_eq_ok_iff {curve : K → K → K} {elapsed halfLife : K} :
    o.decay elapsed halfLife curve = .ok z ↔
      Admits curve elapsed halfLife ∧ Faded (curve elapsed halfLife) o z := by
  have finite (v : K) : Scalar.isFinite v = true := rfl
  simp only [decay, finite, Bool.not_true, Bool.false_or, decide_eq_true_eq]
  by_cases early : elapsed < 0
  · simp only [if_pos early, reduceCtorEq, false_iff]
    exact fun h => not_le.2 early h.1.passed
  · by_cases stale : halfLife ≤ 0
    · simp only [if_neg early, if_pos stale, reduceCtorEq, false_iff]
      exact fun h => not_lt.2 stale h.1.measured
    · by_cases unit : InUnit (curve elapsed halfLife)
      · rw [if_neg early, if_neg stale, if_pos unit, fade_eq_ok_iff unit]
        exact (and_iff_right ⟨not_lt.1 early, not_le.1 stale, unit⟩).symm
      · simp only [if_neg early, if_neg stale, if_neg unit, reduceCtorEq, false_iff]
        exact fun h => unit h.1.part

theorem exists_decay {curve : K → K → K} {elapsed halfLife : K} (o : Opinion K)
    (admitted : Admits curve elapsed halfLife) :
    ∃ z, o.decay elapsed halfLife curve = .ok z ∧ Faded (curve elapsed halfLife) o z := by
  obtain ⟨z, -, faded⟩ := o.exists_fade admitted.part
  exact ⟨z, decay_eq_ok_iff.2 ⟨admitted, faded⟩, faded⟩

section
variable {first second once : K → K → K} {t t' s h h' k : K}

/-- An opinion that ages twice ages as it does where one curve answers with the product. -/
theorem exists_decay_twice (o : Opinion K) (admitted : Admits first t h)
    (admitted' : Admits second t' h') (passed : 0 ≤ s) (measured : 0 < k)
    (product : once s k = first t h * second t' h') :
    ∃ z, (o.decay t h first >>= fun y => y.decay t' h' second) = .ok z ∧
      o.decay s k once = .ok z := by
  have unit : InUnit (once s k) := product ▸ Scalar.inUnit_mul admitted.part admitted'.part
  obtain ⟨y, early, faded⟩ := o.exists_decay admitted
  obtain ⟨z, late, faded'⟩ := y.exists_decay admitted'
  have both : Faded (once s k) o z := product ▸ faded.trans faded'
  exact ⟨z, bind_eq_ok_iff.2 ⟨y, early, late⟩,
    decay_eq_ok_iff.2 ⟨⟨passed, measured, unit⟩, both⟩⟩

end

/-- An opinion that ages over two times that follow each other, by any curves and half-lives that
admit them, stands as if it had aged once by the product of the parts, though its masses may be off
one unit. So the exponential curve, where powers of two multiply, needs only the sum of times. -/
theorem decay_composes [Elementary K] (o : Opinion K) :
    (∀ (first second once : K → K → K) (t t' s h h' k : K), Admits first t h →
      Admits second t' h' → 0 ≤ s → 0 < k → once s k = first t h * second t' h' →
        ∃ z, (o.decay t h first >>= fun y => y.decay t' h' second) = .ok z ∧
          o.decay s k once = .ok z) ∧
    ((∀ v w : K, exp2 (v + w) = exp2 v * exp2 w) → ∀ t t' h : K,
      Admits DecayCurve.exponential.factor t h → Admits DecayCurve.exponential.factor t' h →
        ∃ z, (o.decay t h DecayCurve.exponential.factor >>= fun y =>
            y.decay t' h DecayCurve.exponential.factor) = .ok z ∧
          o.decay (t + t') h DecayCurve.exponential.factor = .ok z) := by
  constructor
  · intro first second once t t' s h h' k admitted admitted' passed measured product
    exact o.exists_decay_twice admitted admitted' passed measured product
  · intro law t t' h admitted admitted'
    exact o.exists_decay_twice admitted admitted' (add_nonneg admitted.passed admitted'.passed)
      admitted.measured (exponential_add law t t' h)

theorem fault?_brimming : fault? (1 : K) tolerance 0 1 = none := by
  rw [fault?_eq_none_iff]
  norm_num [Scalar.inUnit_iff, tolerance, Scalar.oneOver]

def brimming : Opinion K := ⟨1, tolerance, 0, 1, fault?_brimming⟩

theorem decay_composes_brimming :
    (∃ z, ((brimming : Opinion ℝ).decay 1 5 (fun _ _ => 1) >>= fun y =>
          y.decay 2 6 (fun _ _ => 1 / 3)) = .ok z ∧
        brimming.decay 3 7 (fun _ _ => 1 / 3) = .ok z) ∧
      ∃ z, ((brimming : Opinion ℝ).decay 1 5 DecayCurve.exponential.factor >>= fun y =>
          y.decay 2 5 DecayCurve.exponential.factor) = .ok z ∧
        brimming.decay (1 + 2) 5 DecayCurve.exponential.factor = .ok z := by
  have admits {t : ℝ} (passed : 0 ≤ t) : Admits DecayCurve.exponential.factor t 5 := by
    refine ⟨passed, by norm_num, Scalar.inUnit_exp2 ?_⟩
    exact div_nonpos_of_nonpos_of_nonneg (neg_nonpos.2 passed) (by norm_num)
  have whole : Admits (fun _ _ => 1) (1 : ℝ) 5 := by
    refine ⟨by norm_num, by norm_num, ?_⟩
    norm_num [Scalar.inUnit_iff]
  have third : Admits (fun _ _ => 1 / 3) (2 : ℝ) 6 := by
    refine ⟨by norm_num, by norm_num, ?_⟩
    norm_num [Scalar.inUnit_iff]
  obtain ⟨composes, exponential⟩ := decay_composes (brimming : Opinion ℝ)
  constructor
  · exact composes _ _ (fun _ _ => 1 / 3) 1 2 3 5 6 7 whole third (by norm_num) (by norm_num)
      (by norm_num)
  · exact exponential Scalar.exp2_add 1 2 5 (admits (by norm_num)) (admits (by norm_num))

end Credence.Opinion
