import Mathlib.Tactic.Linarith
import Mathlib.Tactic.Ring
import Credence.Opinion.Reasoning
import Credence.Proofs.Opinion.Averaging
import Credence.Proofs.Opinion.Evidence

/-! # Masses that make up one unit

Scores become opinions whose masses add up to one exactly, and a discount and averaging fusion keep
them so. Cumulative fusion keeps them so until two dogmatic opinions meet. What these leave
uncertain is dropped; from then on nothing is uncertain, and the masses lack no more than the
rounding unit, however many opinions follow. So none of these operations fails.
-/

namespace Credence.Opinion
open Scalar (InUnit)
variable {K : Type} [Field K] [LinearOrder K]

/-- Nothing is left uncertain, and no more than the rounding unit is missing. -/
structure Certain (o : Opinion K) : Prop where
  uncertainty : o.uncertainty = 0
  lacking : 1 - Scalar.epsilon ≤ o.belief + o.disbelief
  within : o.belief + o.disbelief ≤ 1

/-- What the fusion of whole opinions arrives at. -/
def Accounted (o : Opinion K) : Prop := Whole o ∨ Certain o

theorem cumulativePair_comm (x y : Opinion K) : cumulativePair x y = cumulativePair y x := by
  have total : cumulativeTotal x y = cumulativeTotal y x := by
    unfold cumulativeTotal
    ring
  simp only [cumulativePair, Scalar.halfSum, total, Bool.and_comm x.isDogmatic, add_comm, mul_comm]

theorem blended_shares {b d u b' d' u' : K} (whole : b + d + u = 1) (whole' : b' + d' + u' = 1) :
    b * u' + b' * u + (d * u' + d' * u) + u * u' = u + u' - u * u' := by
  calc b * u' + b' * u + (d * u' + d' * u) + u * u'
      = (b + d + u) * u' + (b' + d' + u') * u - u * u' := by ring
    _ = u + u' - u * u' := by
      rw [whole, whole']
      ring

variable [IsStrictOrderedRing K] {x y : Opinion K} {b d u a : K}

theorem epsilon_le_tolerance : (Scalar.epsilon : K) ≤ tolerance :=
  one_div_le_one_div_of_le (Nat.cast_pos.2 (by decide)) (Nat.cast_le.2 (by decide))

theorem Accounted.within (h : Accounted x) : x.belief + x.disbelief ≤ 1 := by
  rcases h with whole | certain
  · have uncertain := x.bounds.uncertainty.1
    rw [Whole] at whole
    linarith
  · exact certain.within

theorem Accounted.lacking (h : Accounted x) (dogmatic : x.isDogmatic = true) :
    1 - Scalar.epsilon ≤ x.belief + x.disbelief := by
  rcases h with whole | certain
  · have uncertain : x.uncertainty ≤ Scalar.epsilon := of_decide_eq_true dogmatic
    rw [Whole] at whole
    linarith
  · exact certain.lacking

/-- The sum of the masses is off one by no more than the rounding unit. -/
theorem Accounted.bounded (h : Accounted x) : Bounded Scalar.epsilon x := by
  obtain ⟨belief, disbelief, uncertainty, baseRate, -⟩ := x.bounds
  refine ⟨belief, disbelief, uncertainty, baseRate, ?_⟩
  rcases h with whole | certain
  · rw [whole, sub_self, abs_zero]
    exact epsilon_pos.le
  · rw [certain.uncertainty, add_zero, abs_sub_le_iff]
    exact ⟨by linarith [certain.within, epsilon_pos (K := K)], by linarith [certain.lacking]⟩

theorem exists_settle_whole (hb : 0 ≤ b) (hd : 0 ≤ d) (hu : 0 ≤ u) (ha : InUnit a)
    (whole : b + d + u = 1) : ∃ z, settle b d u a = .ok z ∧ Whole z := by
  have faultless : fault? b d u a = none :=
    fault?_eq_none ⟨hb, by linarith⟩ ⟨hd, by linarith⟩ ⟨hu, by linarith⟩ ha whole
  exact ⟨_, settle_eq_ok faultless, whole⟩

/-- Belief and disbelief that lack no more than the rounding unit are those of an opinion that
leaves nothing uncertain. -/
theorem exists_settle_certain (hb : 0 ≤ b) (hd : 0 ≤ d) (ha : InUnit a)
    (lacking : 1 - Scalar.epsilon ≤ b + d) (within : b + d ≤ 1) :
    ∃ z, settle b d 0 a = .ok z ∧ Certain z := by
  have near : |b + d + 0 - 1| ≤ tolerance := by
    rw [add_zero, abs_sub_le_iff]
    have small : (Scalar.epsilon : K) ≤ tolerance := epsilon_le_tolerance
    exact ⟨by linarith [tolerance_pos (K := K)], by linarith⟩
  have faultless : fault? b d 0 a = none := fault?_eq_none_iff.2
    ⟨⟨hb, by linarith⟩, ⟨hd, by linarith⟩, ⟨le_rfl, zero_le_one⟩, ha, near⟩
  exact ⟨_, settle_eq_ok faultless, rfl, lacking, within⟩

theorem exists_ofConfidence {score : K} (units : InUnit score) (hu : InUnit u) (ha : InUnit a) :
    ∃ o, ofConfidence score u a = .ok o ∧ Whole o := by
  have mass : 0 ≤ 1 - u := sub_nonneg.2 hu.2
  rw [ofConfidence_eq_settle units hu]
  exact exists_settle_whole (mul_nonneg units.1 mass) (mul_nonneg (sub_nonneg.2 units.2) mass) hu.1
    ha (by ring)

/-- Confidence and uncertainty make an opinion exactly where both are scores. -/
theorem exists_ofConfidence_iff {score : K} (ha : InUnit a) :
    (∃ o, ofConfidence score u a = .ok o) ↔ InUnit score ∧ InUnit u := by
  constructor
  · rintro ⟨o, made⟩
    obtain ⟨_, checked, made⟩ := bind_eq_ok_iff.1 made
    obtain ⟨_, checked', -⟩ := bind_eq_ok_iff.1 made
    exact ⟨checkScore_eq_ok_iff.1 (validated_eq_ok_iff.1 checked),
      checkScore_eq_ok_iff.1 (validated_eq_ok_iff.1 checked')⟩
  · rintro ⟨unit, hu⟩
    obtain ⟨o, made, -⟩ := exists_ofConfidence unit hu ha
    exact ⟨o, made⟩

theorem exists_discount (hx : Whole x) (hy : Whole y) : ∃ z, discount x y = .ok z ∧ Whole z := by
  obtain ⟨trust, distrust, doubt, -⟩ := x.bounds
  obtain ⟨belief, disbelief, uncertain, rate, -⟩ := y.bounds
  apply exists_settle_whole (mul_nonneg trust.1 belief.1) (mul_nonneg trust.1 disbelief.1)
    (add_nonneg (add_nonneg distrust.1 doubt.1) (mul_nonneg trust.1 uncertain.1)) rate
  calc x.belief * y.belief + x.belief * y.disbelief +
        (x.disbelief + x.uncertainty + x.belief * y.uncertainty)
      = x.belief * (y.belief + y.disbelief + y.uncertainty) + x.disbelief + x.uncertainty := by ring
    _ = 1 := by rw [hy, mul_one, hx]

theorem le_cumulativeTotal (x y : Opinion K) :
    x.uncertainty ≤ cumulativeTotal x y ∧ y.uncertainty ≤ cumulativeTotal x y :=
  Scalar.le_add_sub_mul x.bounds.uncertainty y.bounds.uncertainty

theorem cumulativeTotal_pos (apart : ¬ (x.isDogmatic = true ∧ y.isDogmatic = true)) :
    0 < cumulativeTotal x y := by
  obtain ⟨low, low'⟩ := le_cumulativeTotal x y
  have uncertain : Scalar.epsilon < x.uncertainty ∨ Scalar.epsilon < y.uncertainty := by
    simpa [isDogmatic, or_iff_not_imp_left] using apart
  rcases uncertain with h | h
  · exact epsilon_pos.trans (h.trans_le low)
  · exact epsilon_pos.trans (h.trans_le low')

/-- Whole opinions that are not both dogmatic are fused to a whole one. -/
theorem Whole.exists_cumulativePair (hx : Whole x) (hy : Whole y)
    (apart : ¬ (x.isDogmatic = true ∧ y.isDogmatic = true)) :
    ∃ z, cumulativePair x y = .ok z ∧ Whole z := by
  have positive := cumulativeTotal_pos apart
  have shares := blended_shares hx hy
  obtain ⟨bx, dx, ux, ax, -⟩ := x.bounds
  obtain ⟨bx', dx', ux', ax', -⟩ := y.bounds
  rw [cumulativePair_eq_settle apart]
  apply exists_settle_whole
  · exact div_nonneg (add_nonneg (mul_nonneg bx.1 ux'.1) (mul_nonneg bx'.1 ux.1)) positive.le
  · exact div_nonneg (add_nonneg (mul_nonneg dx.1 ux'.1) (mul_nonneg dx'.1 ux.1)) positive.le
  · exact div_nonneg (mul_nonneg ux.1 ux'.1) positive.le
  · exact inUnit_halfSum ax ax'
  · rw [← add_div, ← add_div, shares]
    exact div_self positive.ne'

/-- An opinion that leaves nothing uncertain is not moved by one that does. -/
theorem Certain.exists_cumulativePair (hx : Certain x)
    (apart : ¬ (x.isDogmatic = true ∧ y.isDogmatic = true)) :
    ∃ z, cumulativePair x y = .ok z ∧ Certain z := by
  have total : cumulativeTotal x y = y.uncertainty := by simp [cumulativeTotal, hx.uncertainty]
  have positive : y.uncertainty ≠ 0 := total ▸ (cumulativeTotal_pos apart).ne'
  rw [cumulativePair_eq_settle apart, total, hx.uncertainty]
  simp only [mul_zero, zero_mul, add_zero, zero_div, mul_div_cancel_right₀ _ positive]
  exact exists_settle_certain x.bounds.belief.1 x.bounds.disbelief.1
    (inUnit_halfSum x.bounds.baseRate y.bounds.baseRate) hx.lacking hx.within

/-- Two dogmatic opinions are averaged, and what they leave uncertain is dropped. -/
theorem Accounted.exists_cumulativePair_of_dogmatic (hx : Accounted x) (hy : Accounted y)
    (both : x.isDogmatic = true ∧ y.isDogmatic = true) :
    ∃ z, cumulativePair x y = .ok z ∧ Certain z := by
  have lacking := hx.lacking both.1
  have lacking' := hy.lacking both.2
  have within := hx.within
  have within' := hy.within
  have halves : Scalar.halfSum x.belief y.belief + Scalar.halfSum x.disbelief y.disbelief =
      Scalar.halfSum (x.belief + x.disbelief) (y.belief + y.disbelief) := by
    simp only [Scalar.halfSum]
    ring
  have made : cumulativePair x y = settle (Scalar.halfSum x.belief y.belief)
      (Scalar.halfSum x.disbelief y.disbelief) 0 (Scalar.halfSum x.baseRate y.baseRate) := by
    rw [cumulativePair, if_pos (by simpa using both)]
  rw [made]
  apply exists_settle_certain (inUnit_halfSum x.bounds.belief y.bounds.belief).1
    (inUnit_halfSum x.bounds.disbelief y.bounds.disbelief).1
    (inUnit_halfSum x.bounds.baseRate y.bounds.baseRate)
  · rw [halves, Scalar.halfSum, Nat.cast_two, le_div_iff₀ two_pos]
    linarith
  · rw [halves, Scalar.halfSum, Nat.cast_two, div_le_iff₀ two_pos]
    linarith

/-- One more opinion can be fused to what the fusion of whole opinions arrives at. -/
theorem Accounted.exists_cumulativePair (hx : Accounted x) (hy : Whole y) :
    ∃ z, cumulativePair x y = .ok z ∧ Accounted z := by
  by_cases both : x.isDogmatic = true ∧ y.isDogmatic = true
  · obtain ⟨z, made, certain⟩ := hx.exists_cumulativePair_of_dogmatic (.inl hy) both
    exact ⟨z, made, .inr certain⟩
  · rcases hx with whole | certain
    · obtain ⟨z, made, hz⟩ := whole.exists_cumulativePair hy both
      exact ⟨z, made, .inl hz⟩
    · obtain ⟨z, made, hz⟩ := certain.exists_cumulativePair both
      exact ⟨z, made, .inr hz⟩

theorem exists_cumulativeFuse {opinions : List (Opinion K)} (some : opinions ≠ [])
    (whole : ∀ o ∈ opinions, Whole o) :
    ∃ z, cumulativeFuse opinions = .ok z ∧ Accounted z := by
  cases opinions with
  | nil => exact absurd rfl some
  | cons first rest =>
    obtain ⟨here, behind⟩ := List.forall_mem_cons.1 whole
    exact exists_foldlM_of_step (fun x hx y hy => hx.exists_cumulativePair (behind y hy))
      (.inl here)

/-- Fusion of whole opinions fails in neither way. -/
theorem exists_fuse {opinions : List (Opinion K)} (some : opinions ≠ [])
    (whole : ∀ o ∈ opinions, Whole o) (kind : Fusion) :
    ∃ z, kind.fuse opinions = .ok z ∧ Accounted z := by
  cases kind with
  | cumulative => exact exists_cumulativeFuse some whole
  | averaging =>
    obtain ⟨z, made, -, n, w, x, among, means⟩ := exists_averagingFuse some
    exact ⟨z, made, .inl (means.whole (fun i => whole _ (among i)))⟩

end Credence.Opinion
