import Mathlib.Algebra.Order.Field.Basic
import Credence.Opinion.Basic
import Credence.Proofs.Scalar.Exact
import Credence.Proofs.Traversal

/-! # Opinions without rounding

With exact numbers an opinion is accepted exactly where its components lie in the unit interval and
the sum of its masses within the tolerance of one. Components of this kind need not be settled.
-/

namespace Credence
variable {K : Type} [Field K] [LinearOrder K]

theorem Scalar.abs_eq_abs [IsStrictOrderedRing K] (a : K) : Scalar.abs a = |a| := by
  unfold Scalar.abs
  split
  · next below => exact (abs_of_neg below).symm
  · next above => exact (abs_of_nonneg (not_lt.1 above)).symm

namespace Opinion
open Scalar (InUnit)

theorem components_of_make {R : Type} [Scalar R] {b d u a : R} {o : Opinion R}
    (h : make b d u a = .ok o) :
    o.belief = b ∧ o.disbelief = d ∧ o.uncertainty = u ∧ o.baseRate = a := by
  cases hf : fault? b d u a with
  | none =>
    rw [make_eq_ok hf] at h
    cases h
    exact ⟨rfl, rfl, rfl, rfl⟩
  | some fault =>
    rw [make_eq_error hf] at h
    cases h

theorem exists_make_iff {R : Type} [Scalar R] {b d u a : R} :
    (∃ o, make b d u a = .ok o) ↔ fault? b d u a = none := by
  constructor
  · rintro ⟨o, made⟩
    obtain ⟨rfl, rfl, rfl, rfl⟩ := components_of_make made
    exact o.faultless
  · intro faultless
    exact ⟨_, make_eq_ok faultless⟩

theorem make_ne_validation {R : Type} [Scalar R] (b d u a : R) (e : ValidationError R) :
    make b d u a ≠ .error (.validation e) := by
  cases h : fault? b d u a with
  | none => simp [make_eq_ok h]
  | some fault => simp [make_eq_error h]

theorem ofConfidence_eq_settle {R : Type} [Scalar R] {score u : R} (unit : InUnit score)
    (hu : InUnit u) (a : R) :
    ofConfidence score u a = settle (score * (1 - u)) ((1 - score) * (1 - u)) u a := by
  simp [ofConfidence, checkScore, unit, hu, validated, Except.mapError, bind, Except.bind]

theorem componentFault?_eq_none_iff {component : Component} {v : K} :
    componentFault? component v = none ↔ InUnit v := by
  have finite : Scalar.isFinite v = true := rfl
  simp [componentFault?, finite]

theorem settled_of_inUnit {v : K} (h : InUnit v) : settled v = v := by
  have finite : Scalar.isFinite v = true := rfl
  rw [settled, if_pos finite, Scalar.clampUnit_of_inUnit h]

/-- Components of the unit interval are kept as they are. -/
theorem components_of_settle {b d u a : K} {o : Opinion K} (made : settle b d u a = .ok o)
    (hb : InUnit b) (hd : InUnit d) (hu : InUnit u) (ha : InUnit a) :
    o.belief = b ∧ o.disbelief = d ∧ o.uncertainty = u ∧ o.baseRate = a := by
  have settled := components_of_make made
  rwa [settled_of_inUnit hb, settled_of_inUnit hd, settled_of_inUnit hu, settled_of_inUnit ha]
    at settled

/-- The components lie in the unit interval, and the sum of the masses is off one by no more than
some slack. -/
structure Bounded (slack : K) (o : Opinion K) : Prop where
  belief : InUnit o.belief
  disbelief : InUnit o.disbelief
  uncertainty : InUnit o.uncertainty
  baseRate : InUnit o.baseRate
  sum : |o.belief + o.disbelief + o.uncertainty - 1| ≤ slack

/-- The masses add up to one. -/
def Whole (o : Opinion K) : Prop := o.belief + o.disbelief + o.uncertainty = 1

variable [IsStrictOrderedRing K]

theorem sumFault?_eq_none_iff {b d u : K} :
    sumFault? b d u = none ↔ |b + d + u - 1| ≤ tolerance := by
  simp [sumFault?, Scalar.abs_eq_abs]

theorem fault?_eq_none_iff {b d u a : K} :
    fault? b d u a = none ↔
      InUnit b ∧ InUnit d ∧ InUnit u ∧ InUnit a ∧ |b + d + u - 1| ≤ tolerance := by
  simp only [fault?, Option.orElse_eq_orElse, Option.orElse_eq_or, Option.or_eq_none_iff,
    componentFault?_eq_none_iff, sumFault?_eq_none_iff]

theorem bounds (o : Opinion K) : Bounded tolerance o := by
  obtain ⟨belief, disbelief, uncertainty, baseRate, sum⟩ := fault?_eq_none_iff.1 o.faultless
  exact ⟨belief, disbelief, uncertainty, baseRate, sum⟩

theorem tolerance_pos : (0 : K) < tolerance :=
  one_div_pos.2 (Nat.cast_pos.2 (by decide : 0 < 1000000000))

/-- Masses that make up one unit need no tolerance. -/
theorem fault?_eq_none {b d u a : K} (hb : InUnit b) (hd : InUnit d) (hu : InUnit u)
    (ha : InUnit a) (whole : b + d + u = 1) : fault? b d u a = none := by
  refine fault?_eq_none_iff.2 ⟨hb, hd, hu, ha, ?_⟩
  rw [whole, sub_self, abs_zero]
  exact tolerance_pos.le

theorem settle_eq_ok {b d u a : K} (h : fault? b d u a = none) :
    settle b d u a = .ok ⟨b, d, u, a, h⟩ := by
  obtain ⟨hb, hd, hu, ha, -⟩ := fault?_eq_none_iff.1 h
  rw [settle, settled_of_inUnit hb, settled_of_inUnit hd, settled_of_inUnit hu,
    settled_of_inUnit ha, make_eq_ok h]

theorem components_of_ofConfidence {score u a : K} {o : Opinion K} (unit : InUnit score)
    (hu : InUnit u) (ha : InUnit a) (made : ofConfidence score u a = .ok o) :
    o.belief = score * (1 - u) ∧ o.disbelief = (1 - score) * (1 - u) ∧ o.uncertainty = u ∧
      o.baseRate = a := by
  rw [ofConfidence_eq_settle unit hu] at made
  have certain := Scalar.inUnit_complement hu
  exact components_of_settle made (Scalar.inUnit_mul unit certain)
    (Scalar.inUnit_mul (Scalar.inUnit_complement unit) certain) hu ha

end Opinion
end Credence
