import Credence.Proofs.Scalar.Packing

/-! # The arithmetic of double precision

Sums, differences, products and quotients of numbers of double precision are the exact ones
rounded, where they are neither negative nor too large. Comparisons are those of the values.
-/

namespace Credence.Binary64
open Float.Model Float.Model.UnpackedFloat

theorem le_iff {x y : Float} : x ≤ y ↔ x.toModel.unpack.le y.toModel.unpack = true :=
  decide_eq_true_iff

theorem lt_iff {x y : Float} : x < y ↔ x.toModel.unpack.lt y.toModel.unpack = true :=
  decide_eq_true_iff

/-- A number of double precision that is not negative has a value. -/
def Holds (x : Float) (q : ℚ) : Prop := Stands x.toModel.unpack q

theorem Stands.holds {u : UnpackedFloat} {q : ℚ} (h : Stands u q) (small : q ≤ 2 ^ 200) :
    Holds (.ofModel (pack u)) q := by
  have kept := h.unpack_pack_cases.resolve_right (fun large => not_lt.2 small large.2)
  rw [Holds, kept]
  exact h

theorem representable_two_pow {n : ℕ} : Representable (2 ^ n) :=
  ⟨1, n, by norm_num, by omega, by simp⟩

/-- Rounded results are packed without loss. -/
theorem holds_rounded {u : UnpackedFloat} {q : ℚ} (small : q ≤ 2 ^ 200)
    (h : ∃ r, RoundsTo q r ∧ Stands u r) : ∃ r, RoundsTo q r ∧ Holds (.ofModel (pack u)) r := by
  rcases h with ⟨r, rounds, stands⟩
  exact ⟨r, rounds, stands.holds (rounds.le_of_le representable_two_pow small)⟩

theorem RoundsTo.self {q : ℚ} (h : Representable q) : RoundsTo q q where
  representable := h
  le_of_le _ above := above
  ge_of_ge _ below := below
  middle _ below := by linarith

theorem Stands.rounded {u : UnpackedFloat} {q : ℚ} (h : Stands u q) :
    ∃ r, RoundsTo q r ∧ Stands u r := ⟨q, .self h.representable, h⟩

theorem cuts_exact (m : ℕ) : Cuts (.ofMantissaAndAccuracy m .exact) m where
  low := le_rfl
  high := lt_add_one _
  half := nofun

theorem shiftLeft_value (m k : ℕ) (e : ℤ) : ((m <<< k : ℕ) : ℚ) * 2 ^ (e - k) = m * 2 ^ e := by
  rw [Nat.shiftLeft_eq, zpow_sub₀ two_ne_zero, zpow_natCast]
  push_cast
  field_simp

/-- Two numbers are brought to one exponent without loss. -/
theorem decreaseExponent_value (m : ℕ) {e t : ℤ} (below : t ≤ e) :
    ((decreaseExponent m e t).1 : ℚ) * 2 ^ t = m * 2 ^ e := by
  have reached : e - (e - t).toNat = t := by omega
  have value := shiftLeft_value m (e - t).toNat e
  rwa [reached] at value

theorem exists_round_exact {m : ℕ} (positive : 0 < m) (e : ℤ) :
    ∃ r, RoundsTo (m * 2 ^ e) r ∧
      Stands (UnpackedFloat.round Format.binary64 .positive m e) r := by
  let k := (e - max ((m.log2 : ℤ) + e - 52) (-1074)).toNat
  have same : UnpackedFloat.round Format.binary64 .positive m e =
      roundWithAccuracy Format.binary64 .positive (m <<< k) (e - k) .exact := by
    unfold UnpackedFloat.round
    rw [targetExponent_eq]
    rfl
  have wide : 2 ^ 52 ≤ m <<< k ∨ e - k ≤ -1074 := by
    by_cases bottom : e - k ≤ -1074
    · exact .inr bottom
    · left
      have digits : 52 ≤ m.log2 + k := by omega
      calc 2 ^ 52 ≤ 2 ^ (m.log2 + k) := Nat.pow_le_pow_right (by decide) digits
        _ = 2 ^ m.log2 * 2 ^ k := pow_add _ _ _
        _ ≤ m * 2 ^ k := Nat.mul_le_mul_right _ (Nat.log2_self_le positive.ne')
        _ = m <<< k := (Nat.shiftLeft_eq _ _).symm
  rw [same, ← shiftLeft_value m k e]
  exact exists_round (cuts_exact _) wide

theorem exists_normalize {n : ℤ} (nonneg : 0 ≤ n) (e : ℤ) :
    ∃ r, RoundsTo (n * 2 ^ e) r ∧
      Stands (UnpackedFloat.normalize Format.binary64 n e .positive) r := by
  rcases Int.eq_ofNat_of_zero_le nonneg with ⟨m, rfl⟩
  rcases Nat.eq_zero_or_pos m with rfl | positive
  · simpa [UnpackedFloat.normalize] using (Stands.zero .positive).rounded
  · have some : compare (m : ℤ) 0 = .gt := Int.compare_eq_gt.2 (by omega)
    simpa [UnpackedFloat.normalize, some] using exists_round_exact positive e

section Operations
variable {x y : Float} {a b : ℚ}

theorem exists_add (hx : Holds x a) (hy : Holds y b) (small : a + b ≤ 2 ^ 200) :
    ∃ c, RoundsTo (a + b) c ∧ Holds (x + y) c := by
  refine holds_rounded small ?_
  unfold Holds at hx hy
  generalize x.toModel.unpack = u, y.toModel.unpack = v at hx hy
  cases hx with
  | zero s =>
    rw [zero_add]
    cases hy with
    | zero s' =>
      have sum : ∃ s'', UnpackedFloat.add Format.binary64 (.zero s) (.zero s') = .zero s'' := by
        cases s <;> cases s' <;> exact ⟨_, rfl⟩
      rcases sum with ⟨s'', sum⟩
      rw [sum]
      exact (Stands.zero s'').rounded
    | finite positive canonical => exact (Stands.finite positive canonical).rounded
  | @finite m e positive canonical =>
    cases hy with
    | zero s =>
      rw [add_zero]
      exact (Stands.finite positive canonical).rounded
    | @finite m' e' positive' canonical' =>
      have total := exists_normalize (n := (decreaseExponent m e (min e e')).1 +
        (decreaseExponent m' e' (min e e')).1) (by positivity) (min e e')
      rw [Int.cast_add, Int.cast_natCast, Int.cast_natCast, add_mul,
        decreaseExponent_value m (min_le_left e e'),
        decreaseExponent_value m' (min_le_right e e')] at total
      exact total

/-- A difference that is not negative is the exact one rounded. -/
theorem exists_sub (hx : Holds x a) (hy : Holds y b) (ordered : b ≤ a) (small : a ≤ 2 ^ 200) :
    ∃ c, RoundsTo (a - b) c ∧ Holds (x - y) c := by
  have nonneg : 0 ≤ b := Stands.nonneg hy
  refine holds_rounded (by linarith) ?_
  unfold Holds at hx hy
  generalize x.toModel.unpack = u, y.toModel.unpack = v at hx hy
  cases hx with
  | zero s =>
    cases hy with
    | zero s' =>
      have difference :
          ∃ s'', UnpackedFloat.sub Format.binary64 (.zero s) (.zero s') = .zero s'' := by
        cases s <;> cases s' <;> exact ⟨_, rfl⟩
      rcases difference with ⟨s'', difference⟩
      rw [difference, sub_zero]
      exact (Stands.zero s'').rounded
    | finite positive canonical =>
      exact absurd ordered (not_le.2 (mul_pos (Nat.cast_pos.2 positive) (two_zpow_pos _)))
  | @finite m e positive canonical =>
    cases hy with
    | zero s =>
      rw [sub_zero]
      exact (Stands.finite positive canonical).rounded
    | @finite m' e' positive' canonical' =>
      have value := decreaseExponent_value m (min_le_left e e')
      have value' := decreaseExponent_value m' (min_le_right e e')
      have units : (decreaseExponent m' e' (min e e')).1 ≤ (decreaseExponent m e (min e e')).1 := by
        rw [← value, ← value'] at ordered
        exact_mod_cast le_of_mul_le_mul_right ordered (two_zpow_pos _)
      have total := exists_normalize (n := (decreaseExponent m e (min e e')).1 -
        (decreaseExponent m' e' (min e e')).1) (by omega) (min e e')
      rw [Int.cast_sub, Int.cast_natCast, Int.cast_natCast, sub_mul, value, value'] at total
      exact total

theorem exists_mul (hx : Holds x a) (hy : Holds y b) (small : a * b ≤ 2 ^ 200) :
    ∃ c, RoundsTo (a * b) c ∧ Holds (x * y) c := by
  refine holds_rounded small ?_
  unfold Holds at hx hy
  generalize x.toModel.unpack = u, y.toModel.unpack = v at hx hy
  cases hx with
  | zero s =>
    rw [zero_mul]
    cases hy with
    | zero s' => exact (Stands.zero (s * s')).rounded
    | finite positive canonical => exact (Stands.zero (s * .positive)).rounded
  | @finite m e positive canonical =>
    cases hy with
    | zero s =>
      rw [mul_zero]
      exact (Stands.zero (.positive * s)).rounded
    | @finite m' e' positive' canonical' =>
      have wide : 2 ^ 52 ≤ m * m' ∨ e + e' ≤ -1074 := by
        rcases canonical.full with full | bottom
        · exact .inl (full.trans (Nat.le_mul_of_pos_right m positive'))
        · rcases canonical'.full with full | bottom'
          · exact .inl (full.trans (Nat.le_mul_of_pos_left m' positive))
          · exact .inr (by omega)
      have product := exists_round (cuts_exact (m * m')) wide
      have value : ((m * m' : ℕ) : ℚ) * 2 ^ (e + e') = m * 2 ^ e * (m' * 2 ^ e') := by
        rw [zpow_add₀ two_ne_zero]
        push_cast
        ring
      rw [value] at product
      exact product

/-- What remains of a division is known well enough to round. -/
theorem cuts_quotient (n : ℕ) {d : ℕ} (positive : 0 < d) :
    Cuts (.ofMantissaAndAccuracy (n / d) (accuracyOfFraction (n % d) d)) ((n : ℚ) / d) := by
  have unit : (0 : ℚ) < d := Nat.cast_pos.2 positive
  have parts : (n : ℚ) / d = (n / d : ℕ) + (n % d : ℕ) / d := by
    have := Nat.div_add_mod n d
    field_simp
    exact_mod_cast this.symm
  have rest : ((n % d : ℕ) : ℚ) / d < 1 :=
    (div_lt_one unit).2 (by exact_mod_cast Nat.mod_lt n positive)
  have nonneg : (0 : ℚ) ≤ (n % d : ℕ) / d := by positivity
  constructor
  case low =>
    rw [mantissa_ofMantissaAndAccuracy]
    linarith
  case high =>
    rw [mantissa_ofMantissaAndAccuracy]
    linarith
  case half =>
    intro set
    have most : d ≤ 2 * (n % d) := by
      by_contra short
      have below : compare (2 * (n % d)) d = .lt := Nat.compare_eq_lt.2 (by omega)
      unfold accuracyOfFraction at set
      split at set
      · cases set
      · rw [below] at set
        cases set
    have half : (1 : ℚ) / 2 ≤ (n % d : ℕ) / d := by
      rw [div_le_div_iff₀ two_pos unit]
      exact_mod_cast (by omega : 1 * d ≤ n % d * 2)
    rw [mantissa_ofMantissaAndAccuracy]
    linarith

/-- A quotient is formed with 53 digits at least, unless it ends at the least exponent. -/
theorem exists_divCore {m m' : ℕ} (positive : 0 < m) (positive' : 0 < m') (e e' : ℤ) :
    ∃ n t, divCore Format.binary64 m e m' e' = (n / m', t, accuracyOfFraction (n % m') m') ∧
      (n : ℚ) / m' * 2 ^ t = m * 2 ^ e / (m' * 2 ^ e') ∧ (2 ^ 52 ≤ n / m' ∨ t ≤ -1074) := by
  let t : ℤ := min (e - e') (max (m.log2 + 1 + e - (m'.log2 + 1 + e') - 53) (-1074))
  have below : t ≤ e - e' := min_le_left _ _
  refine ⟨m <<< (e - e' - t).toNat, t, rfl, ?_, ?_⟩
  · have unit : (2 : ℚ) ^ (e - e') = 2 ^ (e - e' - t).toNat * 2 ^ t := zpow_toNat below
    rw [Nat.shiftLeft_eq]
    push_cast
    rw [div_mul_eq_mul_div, mul_assoc, ← unit, zpow_sub₀ two_ne_zero]
    field_simp
  · by_cases bottom : t ≤ -1074
    · exact .inr bottom
    · left
      have digits : 53 + m'.log2 ≤ m.log2 + (e - e' - t).toNat := by
        omega
      rw [Nat.le_div_iff_mul_le positive', Nat.shiftLeft_eq]
      calc 2 ^ 52 * m' ≤ 2 ^ 52 * 2 ^ (m'.log2 + 1) := Nat.mul_le_mul_left _ Nat.lt_log2_self.le
        _ = 2 ^ (53 + m'.log2) := by ring
        _ ≤ 2 ^ (m.log2 + (e - e' - t).toNat) := Nat.pow_le_pow_right (by decide) digits
        _ = 2 ^ m.log2 * 2 ^ (e - e' - t).toNat := pow_add _ _ _
        _ ≤ m * 2 ^ (e - e' - t).toNat :=
          Nat.mul_le_mul_right _ (Nat.log2_self_le positive.ne')

theorem Stands.div {u v : UnpackedFloat} (hu : Stands u a) (hv : Stands v b) (some : 0 < b) :
    ∃ c, RoundsTo (a / b) c ∧ Stands (UnpackedFloat.div Format.binary64 u v) c := by
  cases hv with
  | zero s => exact absurd some (lt_irrefl 0)
  | @finite m' e' positive' canonical' =>
    cases hu with
    | zero s =>
      rw [zero_div]
      exact (Stands.zero (s / .positive)).rounded
    | @finite m e positive canonical =>
      rcases exists_divCore positive positive' e e' with ⟨n, t, core, value, wide⟩
      have quotient := exists_round (cuts_quotient n positive') wide
      rw [value] at quotient
      simp only [UnpackedFloat.div, core]
      exact quotient

theorem exists_div (hx : Holds x a) (hy : Holds y b) (some : 0 < b) (small : a / b ≤ 2 ^ 200) :
    ∃ c, RoundsTo (a / b) c ∧ Holds (x / y) c :=
  holds_rounded small (Stands.div hx hy some)

/-- Nothing is left of a number that is divided by infinity. -/
theorem holds_div_infinity (hx : Holds x a) (infinite : y.toModel.unpack = .infinity .positive) :
    Holds (x / y) 0 := by
  have nothing : ∃ s, UnpackedFloat.div Format.binary64 x.toModel.unpack (.infinity .positive) =
      .zero s := by
    unfold Holds at hx
    generalize x.toModel.unpack = u at hx
    cases hx with
    | zero s => exact ⟨_, rfl⟩
    | finite positive canonical => exact ⟨_, rfl⟩
  rcases nothing with ⟨s, nothing⟩
  have value : (x / y).toModel = pack (.zero s) := by
    rw [← nothing, ← infinite]
    rfl
  rw [Holds, value, unpack_pack_zero]
  exact .zero s

/-- Canonical numbers are compared by exponent first, then by mantissa. -/
theorem compare_canonical {m m' : ℕ} {e e' : ℤ} (h : Canonical m e) (h' : Canonical m' e') :
    (compare e e').then (compare m m') = compare ((m : ℚ) * 2 ^ e) (m' * 2 ^ e') := by
  rcases lt_trichotomy e e' with below | rfl | above
  · have wide := h'.full.resolve_right (by have := h.least; omega)
    rw [compare_lt_iff_lt.2 below,
      compare_lt_iff_lt.2 (value_lt_of_exponent_lt h.narrow wide below)]
    rfl
  · have unit := two_zpow_pos e
    rw [compare_eq_iff_eq.2 rfl]
    change compare m m' = _
    rcases lt_trichotomy m m' with less | rfl | more
    · have scaled : (m : ℚ) * 2 ^ e < m' * 2 ^ e :=
        mul_lt_mul_of_pos_right (by exact_mod_cast less) unit
      rw [compare_lt_iff_lt.2 less, compare_lt_iff_lt.2 scaled]
    · rw [compare_eq_iff_eq.2 rfl, compare_eq_iff_eq.2 rfl]
    · have scaled : (m' : ℚ) * 2 ^ e < m * 2 ^ e :=
        mul_lt_mul_of_pos_right (by exact_mod_cast more) unit
      rw [compare_gt_iff_gt.2 more, compare_gt_iff_gt.2 scaled]
  · have wide := h.full.resolve_right (by have := h'.least; omega)
    rw [compare_gt_iff_gt.2 above,
      compare_gt_iff_gt.2 (value_lt_of_exponent_lt h'.narrow wide above)]
    rfl

theorem compare_eq (hx : Holds x a) (hy : Holds y b) :
    x.toModel.unpack.compare y.toModel.unpack = some (compare a b) := by
  unfold Holds at hx hy
  generalize x.toModel.unpack = u, y.toModel.unpack = v at hx hy
  have above {m : ℕ} {e : ℤ} (positive : 0 < m) : (0 : ℚ) < m * 2 ^ e :=
    mul_pos (Nat.cast_pos.2 positive) (two_zpow_pos e)
  cases hx with
  | zero s =>
    cases hy with
    | zero s' => simp [UnpackedFloat.compare]
    | finite positive canonical =>
      simp [UnpackedFloat.compare, compare_lt_iff_lt.2 (above positive)]
  | finite positive canonical =>
    cases hy with
    | zero s => simp [UnpackedFloat.compare, compare_gt_iff_gt.2 (above positive)]
    | finite positive' canonical' => exact congrArg some (compare_canonical canonical canonical')

theorem holds_le_iff (hx : Holds x a) (hy : Holds y b) : x ≤ y ↔ a ≤ b := by
  rw [le_iff, UnpackedFloat.le, compare_eq hx hy, Option.any_some, Ordering.isLE_iff_ne_gt]
  exact compare_le_iff_le

theorem holds_lt_iff (hx : Holds x a) (hy : Holds y b) : x < y ↔ a < b := by
  rw [lt_iff, UnpackedFloat.lt, compare_eq hx hy, beq_iff_eq, Option.some.injEq]
  exact compare_lt_iff_lt

end Operations

theorem holds_zero : Holds 0 0 := .zero .positive

theorem holds_one : Holds 1 1 := by
  have unit : ((2 ^ 52 : ℕ) : ℚ) * 2 ^ (-52 : ℤ) = 1 := by norm_num
  have canonical : Canonical (2 ^ 52) (-52) := ⟨by decide, by decide, .inl le_rfl⟩
  rw [← unit]
  exact .finite (by decide) canonical

end Credence.Binary64
