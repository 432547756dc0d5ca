import Mathlib

/-! # Rounding to double precision

The arithmetic of double precision cuts an exact result to a whole number of units in the last
place and says whether at least half a unit is left. What comes of it never lies beyond a
representable number on the other side, and is rounded up only from the middle on.
-/

namespace Credence.Binary64
open Float.Model Float.Model.UnpackedFloat

/-- Numbers with 53 binary digits of which the last does not stand too low. Their size is not
bounded. -/
def Representable (q : ℚ) : Prop := ∃ (m : ℕ) (e : ℤ), m < 2 ^ 53 ∧ -1074 ≤ e ∧ q = m * 2 ^ e

/-- One number stands for another among the representable ones. -/
structure RoundsTo (q r : ℚ) : Prop where
  representable : Representable r
  le_of_le {b : ℚ} : Representable b → q ≤ b → r ≤ b
  ge_of_ge {b : ℚ} : Representable b → b ≤ q → b ≤ r
  middle {b : ℚ} : Representable b → b < r → (b + r) / 2 ≤ q

/-- What is cut off from a number is less than one, and the round bit is set only where it is one
half at least. -/
structure Cuts (em : ExtendedMantissa) (x : ℚ) : Prop where
  low : em.mantissa ≤ x
  high : x < em.mantissa + 1
  half : em.roundBit = true → em.mantissa + 1 / 2 ≤ x

theorem two_zpow_pos (e : ℤ) : (0 : ℚ) < 2 ^ e := zpow_pos two_pos e

theorem zpow_toNat {e t : ℤ} (h : t ≤ e) : (2 : ℚ) ^ e = 2 ^ (e - t).toNat * 2 ^ t := by
  rw [← zpow_natCast, ← zpow_add₀ two_ne_zero, Int.toNat_of_nonneg (Int.sub_nonneg.2 h),
    Int.sub_add_cancel]

/-- A full mantissa is greater than any of a lesser exponent. -/
theorem value_lt_of_exponent_lt {m m' : ℕ} {e e' : ℤ} (narrow : m < 2 ^ 53) (wide : 2 ^ 52 ≤ m')
    (below : e < e') : (m : ℚ) * 2 ^ e < m' * 2 ^ e' := by
  have double : (2 : ℚ) ^ (e + 1) = 2 ^ e * 2 := zpow_add_one₀ two_ne_zero e
  have next : (2 : ℚ) ^ (e + 1) ≤ 2 ^ e' := zpow_le_zpow_right₀ one_le_two (by omega)
  have wide : (2 : ℚ) ^ 52 ≤ m' := by exact_mod_cast wide
  calc (m : ℚ) * 2 ^ e < 2 ^ 53 * 2 ^ e :=
        mul_lt_mul_of_pos_right (by exact_mod_cast narrow) (two_zpow_pos e)
    _ = 2 ^ 52 * 2 ^ (e + 1) := by rw [double]; ring
    _ ≤ m' * 2 ^ e' := mul_le_mul wide next (two_zpow_pos _).le (Nat.cast_nonneg _)

namespace Cuts
variable {em : ExtendedMantissa} {x : ℚ}

theorem shiftRightOne (h : Cuts em x) : Cuts em.shiftRightOne (x / 2) := by
  have parts : (em.mantissa : ℚ) = 2 * (em.mantissa / 2 : ℕ) + (em.mantissa % 2 : ℕ) := by
    exact_mod_cast (Nat.div_add_mod em.mantissa 2).symm
  have low := h.low
  have high := h.high
  have bit : ((em.mantissa % 2 : ℕ) : ℚ) ≤ 1 := by exact_mod_cast (by omega : em.mantissa % 2 ≤ 1)
  have least : (0 : ℚ) ≤ (em.mantissa % 2 : ℕ) := Nat.cast_nonneg _
  constructor
  case low =>
    change ((em.mantissa / 2 : ℕ) : ℚ) ≤ x / 2
    linarith
  case high =>
    change x / 2 < ((em.mantissa / 2 : ℕ) : ℚ) + 1
    linarith
  case half =>
    intro odd
    have one : em.mantissa % 2 = 1 := by
      have : em.mantissa % 2 ≠ 0 := by simpa [ExtendedMantissa.shiftRightOne] using odd
      omega
    rw [one, Nat.cast_one] at parts
    change ((em.mantissa / 2 : ℕ) : ℚ) + 1 / 2 ≤ x / 2
    linarith

theorem shiftRight (h : Cuts em x) (n : ℕ) : Cuts (em >>> n) (x / 2 ^ n) := by
  change Cuts (n.repeat ExtendedMantissa.shiftRightOne em) _
  induction n with
  | zero => simpa [Nat.repeat] using h
  | succ n ih =>
    rw [Nat.repeat, pow_succ, div_mul_eq_div_div]
    exact ih.shiftRightOne

/-- A mantissa is rounded to itself, or up where at least half a unit was cut off. -/
theorem rounded (h : Cuts em x) : em.roundedMantissa = em.mantissa ∨
    em.roundedMantissa = em.mantissa + 1 ∧ (em.mantissa : ℚ) + 1 / 2 ≤ x := by
  rcases em with ⟨m, roundBit, stickyBit⟩
  cases roundBit with
  | false => cases stickyBit <;> exact .inl rfl
  | true =>
    have half := h.half rfl
    cases stickyBit with
    | true => exact .inr ⟨rfl, half⟩
    | false =>
      rcases Nat.mod_two_eq_zero_or_one m with even | odd
      · exact .inl (congrArg (m + ·) even)
      · exact .inr ⟨congrArg (m + ·) odd, half⟩

theorem rounded_le (h : Cuts em x) {n : ℕ} (above : x ≤ n) : em.roundedMantissa ≤ n := by
  rcases h.rounded with same | ⟨up, half⟩
  · rw [same]
    exact_mod_cast h.low.trans above
  · have : (em.mantissa : ℚ) < n := by linarith
    rw [up]
    exact Nat.succ_le_of_lt (by exact_mod_cast this)

theorem le_mantissa (h : Cuts em x) {n : ℕ} (below : (n : ℚ) ≤ x) : n ≤ em.mantissa := by
  have : (n : ℚ) < em.mantissa + 1 := below.trans_lt h.high
  exact Nat.le_of_lt_succ (by exact_mod_cast this)

theorem mantissa_le_rounded (h : Cuts em x) : em.mantissa ≤ em.roundedMantissa := by
  rcases h.rounded with same | ⟨up, -⟩ <;> omega

/-- Rounding up passes no whole number from which the middle is not reached. -/
theorem rounded_middle (h : Cuts em x) {n : ℕ} (below : n < em.roundedMantissa) :
    ((n : ℚ) + em.roundedMantissa) / 2 ≤ x := by
  rcases h.rounded with same | ⟨up, half⟩
  · rw [same] at below ⊢
    have : (n : ℚ) < em.mantissa := by exact_mod_cast below
    linarith [h.low]
  · rw [up] at below ⊢
    have : (n : ℚ) ≤ em.mantissa := by exact_mod_cast Nat.le_of_lt_succ below
    push_cast
    linarith

end Cuts

/-- Whole numbers of a unit are rounded to representable numbers, if the unit is the last place of
a full mantissa or the least of all. -/
theorem Cuts.roundsTo {em : ExtendedMantissa} {x : ℚ} (h : Cuts em x) {t : ℤ}
    (representable : Representable (em.roundedMantissa * 2 ^ t))
    (full : 2 ^ 52 ≤ em.mantissa ∨ t = -1074) :
    RoundsTo (x * 2 ^ t) (em.roundedMantissa * 2 ^ t) := by
  have unit := two_zpow_pos t
  -- A representable number is a whole number of units, or is less than a full mantissa of them.
  have cases_of {b : ℚ} (hb : Representable b) :
      (∃ n : ℕ, b = n * 2 ^ t) ∨ b < em.mantissa * 2 ^ t := by
    rcases hb with ⟨m, e, narrow, least, rfl⟩
    by_cases above : t ≤ e
    · exact .inl ⟨m * 2 ^ (e - t).toNat, by rw [zpow_toNat above]; push_cast; ring⟩
    · have wide : 2 ^ 52 ≤ em.mantissa := full.resolve_right (by omega)
      exact .inr (value_lt_of_exponent_lt narrow wide (by omega))
  have low : (em.mantissa : ℚ) * 2 ^ t ≤ x * 2 ^ t := mul_le_mul_of_nonneg_right h.low unit.le
  have kept : (em.mantissa : ℚ) * 2 ^ t ≤ em.roundedMantissa * 2 ^ t :=
    mul_le_mul_of_nonneg_right (by exact_mod_cast h.mantissa_le_rounded) unit.le
  refine ⟨representable, fun hb above => ?_, fun hb below => ?_, fun hb below => ?_⟩
  · rcases cases_of hb with ⟨n, rfl⟩ | short
    · have above := le_of_mul_le_mul_right above unit
      exact mul_le_mul_of_nonneg_right (by exact_mod_cast h.rounded_le above) unit.le
    · exact absurd (low.trans above) (not_le.2 short)
  · rcases cases_of hb with ⟨n, rfl⟩ | short
    · have within := h.le_mantissa (le_of_mul_le_mul_right below unit)
      have within : (n : ℚ) ≤ em.mantissa := by exact_mod_cast within
      exact (mul_le_mul_of_nonneg_right within unit.le).trans kept
    · exact short.le.trans kept
  · rcases cases_of hb with ⟨n, rfl⟩ | short
    · have below := lt_of_mul_lt_mul_right below unit.le
      have middle := h.rounded_middle (by exact_mod_cast below : n < em.roundedMantissa)
      calc ((n : ℚ) * 2 ^ t + em.roundedMantissa * 2 ^ t) / 2
          = ((n : ℚ) + em.roundedMantissa) / 2 * 2 ^ t := by ring
        _ ≤ x * 2 ^ t := mul_le_mul_of_nonneg_right middle unit.le
    · rcases h.rounded with same | ⟨up, half⟩
      · rw [same]
        linarith
      · have half := mul_le_mul_of_nonneg_right half unit.le
        rw [up]
        push_cast
        linarith

/-- A mantissa has 53 binary digits, unless the exponent is the least. -/
structure Canonical (m : ℕ) (e : ℤ) : Prop where
  narrow : m < 2 ^ 53
  least : -1074 ≤ e
  full : 2 ^ 52 ≤ m ∨ e = -1074

/-- A number that is not negative. A zero may have either sign. -/
inductive Stands : UnpackedFloat → ℚ → Prop
  | zero (s : Sign) : Stands (.zero s) 0
  | finite {m : ℕ} {e : ℤ} (positive : 0 < m) (canonical : Canonical m e) :
      Stands (.finite .positive m e positive) (m * 2 ^ e)

theorem Stands.nonneg {u : UnpackedFloat} {q : ℚ} (h : Stands u q) : 0 ≤ q := by
  cases h with
  | zero s => exact le_rfl
  | finite positive canonical => exact mul_nonneg (Nat.cast_nonneg _) (two_zpow_pos _).le

theorem Stands.isFinite {u : UnpackedFloat} {q : ℚ} (h : Stands u q) : u.isFinite = true := by
  cases h <;> rfl

theorem Stands.representable {u : UnpackedFloat} {q : ℚ} (h : Stands u q) : Representable q := by
  cases h with
  | zero s => exact ⟨0, 0, by norm_num, by norm_num, by norm_num⟩
  | finite positive canonical => exact ⟨_, _, canonical.narrow, canonical.least, rfl⟩

theorem targetExponent_eq (m : ℕ) (e : ℤ) :
    Format.binary64.targetExponent (totalExponent m e) = max (m.log2 + e - 52) (-1074) := by
  simp only [Format.targetExponent, totalExponent, Format.mantissaBits, Format.minExponent]
  norm_num
  omega

theorem shiftToTargetExponent_of_narrow {m : ℕ} {e : ℤ} (narrow : m < 2 ^ 53)
    (least : -1074 ≤ e) :
    shiftToTargetExponent Format.binary64 m e .exact = (⟨m, false, false⟩, e) := by
  have digits : m.log2 ≤ 52 := by
    by_cases none : m = 0
    · simp [none]
    · exact Nat.le_of_lt_succ ((Nat.log2_lt none).2 narrow)
  have still : (max ((m.log2 : ℤ) + e - 52) (-1074) - e).toNat = 0 := by omega
  rw [shiftToTargetExponent, targetExponent_eq, shiftToExponent, still]
  exact Prod.ext rfl (add_zero e)

theorem shiftToTargetExponent_of_carry {e : ℤ} (least : -1074 ≤ e) :
    shiftToTargetExponent Format.binary64 (2 ^ 53) e .exact = (⟨2 ^ 52, false, false⟩, e + 1) := by
  have once : (max (((2 ^ 53 : ℕ).log2 : ℤ) + e - 52) (-1074) - e).toNat = 1 := by
    rw [Nat.log2_two_pow]
    omega
  rw [shiftToTargetExponent, targetExponent_eq, shiftToExponent, once]
  rfl

theorem mantissa_ofMantissaAndAccuracy (m : ℕ) (accuracy : Accuracy) :
    (ExtendedMantissa.ofMantissaAndAccuracy m accuracy).mantissa = m := by
  rcases accuracy with _ | _ | _ | _ <;> rfl

section Round
variable {m : ℕ} {e : ℤ} {accuracy : Accuracy} {x : ℚ}
  (cuts : Cuts (.ofMantissaAndAccuracy m accuracy) x) (wide : 2 ^ 52 ≤ m ∨ e ≤ -1074)
include cuts wide

/-- The first shift leaves 53 digits and no fewer, unless it ends at the least exponent. -/
theorem exists_first_shift : ∃ em t,
    shiftToTargetExponent Format.binary64 m e accuracy = (em, t) ∧
      Cuts em (x * 2 ^ e / 2 ^ t) ∧ Canonical em.mantissa t := by
  let t := max ((m.log2 : ℤ) + e - 52) (-1074)
  have digits : 2 ^ 52 ≤ m → 52 ≤ m.log2 := fun h => (Nat.le_log2 (by omega)).2 h
  have above : e ≤ t := by omega
  have scale : x / 2 ^ (t - e).toNat = x * 2 ^ e / 2 ^ t := by
    rw [zpow_toNat above]
    field_simp
  have shifted := cuts.shiftRight (t - e).toNat
  have low := cuts.low
  have high := cuts.high
  rw [mantissa_ofMantissaAndAccuracy] at low high
  refine ⟨_, t, ?_, scale ▸ shifted, ?_, le_max_right _ _, ?_⟩
  · rw [shiftToTargetExponent, targetExponent_eq, shiftToExponent, Int.toNat_of_nonneg (by omega)]
    exact Prod.ext rfl (by omega)
  · have most : m + 1 ≤ 2 ^ (53 + (t - e).toNat) :=
      Nat.lt_log2_self.trans_le (Nat.pow_le_pow_right (by decide) (by omega))
    have most : (m : ℚ) + 1 ≤ 2 ^ 53 * 2 ^ (t - e).toNat := by
      rw [← pow_add]
      exact_mod_cast most
    have : x / 2 ^ (t - e).toNat < 2 ^ 53 :=
      (div_lt_iff₀ (by positivity)).2 (high.trans_le most)
    exact_mod_cast shifted.low.trans_lt this
  · by_cases bottom : t = -1074
    · exact .inr bottom
    · left
      have some : m ≠ 0 := by
        rintro rfl
        have : Nat.log2 0 = 0 := Nat.log2_zero
        omega
      have least : 2 ^ (52 + (t - e).toNat) ≤ m :=
        (Nat.le_log2 some).1 (by omega)
      have least : (2 : ℚ) ^ 52 * 2 ^ (t - e).toNat ≤ m := by
        rw [← pow_add]
        exact_mod_cast least
      have : (2 : ℚ) ^ 52 ≤ x / 2 ^ (t - e).toNat :=
        (le_div_iff₀ (by positivity)).2 (least.trans low)
      exact shifted.le_mantissa (by exact_mod_cast this)

theorem exists_round : ∃ r, RoundsTo (x * 2 ^ e) r ∧
    Stands (roundWithAccuracy Format.binary64 .positive m e accuracy) r := by
  rcases exists_first_shift cuts wide with ⟨em, t, first, shifted, canonical⟩
  have narrow := canonical.narrow
  have back : x * 2 ^ e / 2 ^ t * 2 ^ t = x * 2 ^ e := div_mul_cancel₀ _ (two_zpow_pos t).ne'
  have most : em.roundedMantissa ≤ 2 ^ 53 := by
    rcases shifted.rounded with same | ⟨up, -⟩ <;> omega
  have kept := shifted.mantissa_le_rounded
  have stands : Stands (roundWithAccuracy Format.binary64 .positive m e accuracy)
      (em.roundedMantissa * 2 ^ t) := by
    unfold roundWithAccuracy
    simp only [first]
    rcases Nat.lt_or_eq_of_le most with still | carry
    · simp only [shiftToTargetExponent_of_narrow still canonical.least]
      split
      · next none =>
        rw [none, Nat.cast_zero, zero_mul]
        exact .zero _
      · exact .finite _ ⟨still, canonical.least, canonical.full.imp_left (·.trans kept)⟩
    · have double : ((2 ^ 53 : ℕ) : ℚ) * 2 ^ t = (2 ^ 52 : ℕ) * 2 ^ (t + 1) := by
        rw [zpow_add_one₀ two_ne_zero]
        push_cast
        ring
      simp only [carry, shiftToTargetExponent_of_carry canonical.least, double]
      exact .finite (by decide) ⟨by decide, by have := canonical.least; omega, .inl le_rfl⟩
  exact ⟨_, back ▸ shifted.roundsTo stands.representable canonical.full, stands⟩

end Round

end Credence.Binary64
