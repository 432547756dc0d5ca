import Credence.Proofs.Scalar.Binary64

/-! # Whole numbers in double precision

A whole number is rounded to double precision unless it is too large, and the ones up to 2 to the
power 53 are held exactly. So these are told apart there, whatever their signs.
-/

namespace Credence.Binary64
open Float.Model Float.Model.UnpackedFloat

theorem RoundsTo.eq_self {q r : ℚ} (h : RoundsTo q r) (exact : Representable q) : r = q :=
  le_antisymm (h.le_of_le exact le_rfl) (h.ge_of_ge exact le_rfl)

section Count
variable {n : ℕ}

theorem representable_natCast (small : n ≤ 2 ^ 53) : Representable n := by
  rcases Nat.lt_or_eq_of_le small with below | rfl
  · exact ⟨n, 0, below, by decide, by simp⟩
  · exact_mod_cast representable_two_pow (n := 53)

theorem holds_natCast_of_lt (below : n < 2 ^ 53) : Holds (n : Float) n := by
  have exact := representable_natCast below.le
  have most : (n : ℚ) ≤ 2 ^ 200 := by
    calc (n : ℚ) ≤ 2 ^ 53 := by exact_mod_cast below.le
      _ ≤ 2 ^ 200 := by norm_num
  have spelled := exists_normalize (Int.natCast_nonneg n) 0
  rw [zpow_zero, mul_one, Int.cast_natCast] at spelled
  obtain ⟨r, rounds, held⟩ := holds_rounded most spelled
  have word : Holds n.toUInt64.toFloat r := by
    have same : n.toUInt64.toNat = n := Nat.mod_eq_of_lt (by omega)
    rw [← same] at held
    exact held
  rw [rounds.eq_self exact] at word
  obtain ⟨c, rounds, product⟩ := exists_mul word holds_one (by rwa [mul_one])
  rw [mul_one] at rounds
  rw [rounds.eq_self exact] at product
  have scaled : (n : Float) = n.toUInt64.toFloat * 1 := by
    change Float.ofScientific n false 0 = _
    unfold Float.ofScientific
    rw [dif_pos ⟨below, by decide⟩]
    rfl
  exact scaled ▸ product

/-- A greater count is rounded, unless it is too large and becomes infinite. -/
theorem natCast_cases_of_le (above : 2 ^ 53 ≤ n) :
    (n : Float).toModel.unpack = .infinity .positive ∧ 2 ^ 200 < (n : ℚ) ∨
      ∃ r, RoundsTo n r ∧ Holds (n : Float) r := by
  have model : (n : Float) =
      .ofModel (pack (UnpackedFloat.ofScientific Format.binary64 n 0)) := by
    change Float.ofScientific n false 0 = _
    unfold Float.ofScientific
    rw [dif_neg (fun h => Nat.not_lt.2 above h.1)]
    rfl
  have scaled : UnpackedFloat.ofScientific Format.binary64 n 0 =
      roundWithAccuracy Format.binary64 .positive (n <<< 53 * 1) (-53 + 0) .exact := by
    have low : ¬ (0 : ℤ) < -(2 ^ 11 + (n.log2 : ℤ)) := by omega
    unfold UnpackedFloat.ofScientific
    rw [dif_neg (by omega), if_neg (by decide), if_neg low, if_pos le_rfl]
    rfl
  have value : ((n <<< 53 * 1 : ℕ) : ℚ) * 2 ^ (-53 + 0 : ℤ) = n := by
    rw [Nat.shiftLeft_eq]
    push_cast
    norm_num
    ring
  have wide : 2 ^ 52 ≤ n <<< 53 * 1 := by
    rw [Nat.shiftLeft_eq]
    omega
  rcases exists_round (cuts_exact (n <<< 53 * 1)) (e := -53 + 0) (.inl wide) with
    ⟨r, rounds, stands⟩
  rw [value] at rounds
  rw [model, scaled]
  rcases stands.unpack_pack_cases with kept | ⟨infinite, large⟩
  · exact .inr ⟨r, rounds, by rwa [Holds, kept]⟩
  · exact .inl ⟨infinite, lt_of_not_ge fun small =>
      not_lt.2 (rounds.le_of_le representable_two_pow small) large⟩

theorem natCast_cases (n : ℕ) :
    (n : Float).toModel.unpack = .infinity .positive ∧ 2 ^ 200 < (n : ℚ) ∨
      ∃ r, RoundsTo n r ∧ Holds (n : Float) r := by
  rcases Nat.lt_or_ge n (2 ^ 53) with below | above
  · exact .inr ⟨n, .self (representable_natCast below.le), holds_natCast_of_lt below⟩
  · exact natCast_cases_of_le above

/-- Counts up to 2 to the power 53 are held exactly. -/
theorem holds_natCast (small : n ≤ 2 ^ 53) : Holds (n : Float) n := by
  have most : (n : ℚ) ≤ 2 ^ 53 := by exact_mod_cast small
  rcases natCast_cases n with ⟨-, large⟩ | ⟨r, rounds, held⟩
  · exact absurd (large.trans_le most) (by norm_num)
  · rwa [rounds.eq_self (representable_natCast small)] at held

end Count

section Signed
variable {x y : Float} {a b : ℚ}

theorem holds_beq_iff (hx : Holds x a) (hy : Holds y b) : (x == y) = true ↔ a = b := by
  change (x.toModel.unpack.compare y.toModel.unpack == some .eq) = true ↔ a = b
  rw [compare_eq hx hy, beq_iff_eq, Option.some.injEq]
  exact compare_eq_iff_eq

theorem unpack_neg (hx : Holds x a) (small : a ≤ 2 ^ 200) :
    (-x).toModel.unpack = x.toModel.unpack.neg := Stands.unpack_pack_neg hx small

theorem neg_beq_neg (hx : Holds x a) (hy : Holds y b) (ha : a ≤ 2 ^ 200) (hb : b ≤ 2 ^ 200) :
    (-x == -y) = (x == y) := by
  change (-x).toModel.unpack.beq (-y).toModel.unpack = x.toModel.unpack.beq y.toModel.unpack
  rw [unpack_neg hx ha, unpack_neg hy hb]
  unfold Holds at hx hy
  generalize x.toModel.unpack = u, y.toModel.unpack = v at hx hy
  cases hx <;> cases hy <;> simp [UnpackedFloat.beq, UnpackedFloat.neg, UnpackedFloat.compare]

theorem beq_neg_eq_false (hx : Holds x a) (hy : Holds y b) (positive : 0 < b)
    (small : b ≤ 2 ^ 200) : (x == -y) = false := by
  change x.toModel.unpack.beq (-y).toModel.unpack = false
  rw [unpack_neg hy small]
  unfold Holds at hx hy
  generalize x.toModel.unpack = u, y.toModel.unpack = v at hx hy
  cases hy with
  | zero s => exact absurd positive (lt_irrefl 0)
  | finite some canonical => cases hx <;> rfl

/-- A number of double precision has a value, which is not too large if it is negative. -/
inductive HoldsSigned : Float → ℚ → Prop
  | nonneg {x : Float} {a : ℚ} (held : Holds x a) : HoldsSigned x a
  | neg {x : Float} {a : ℚ} (held : Holds x a) (positive : 0 < a) (small : a ≤ 2 ^ 200) :
      HoldsSigned (-x) (-a)

theorem holdsSigned_beq_iff (hx : HoldsSigned x a) (hy : HoldsSigned y b) :
    (x == y) = true ↔ a = b := by
  cases hx with
  | nonneg hx =>
    cases hy with
    | nonneg hy => exact holds_beq_iff hx hy
    | @neg y b hy positive small =>
      have apart : a ≠ -b := fun same => by linarith [Stands.nonneg hx]
      simp [beq_neg_eq_false hx hy positive small, apart]
  | @neg x a hx positive small =>
    cases hy with
    | nonneg hy =>
      have apart : -a ≠ b := fun same => by linarith [Stands.nonneg hy]
      rw [BEq.comm]
      simp [beq_neg_eq_false hy hx positive small, apart]
    | neg hy positive' small' => rw [neg_beq_neg hx hy small small', holds_beq_iff hx hy, neg_inj]

variable {m n : ℤ}

theorem holdsSigned_intCast (small : m.natAbs ≤ 2 ^ 53) : HoldsSigned (m : Float) m := by
  cases m with
  | ofNat k => exact .nonneg (holds_natCast (n := k) small)
  | negSucc k =>
    have bounded : ((k + 1 : ℕ) : ℚ) ≤ 2 ^ 200 := by
      calc ((k + 1 : ℕ) : ℚ) ≤ 2 ^ 53 := by exact_mod_cast small
        _ ≤ 2 ^ 200 := by norm_num
    rw [Int.cast_negSucc]
    exact .neg (holds_natCast small) (by exact_mod_cast k.succ_pos) bounded

/-- Whole numbers up to 2 to the power 53 are equal if they are equal in double precision. -/
theorem eq_of_intCast_beq (hm : m.natAbs ≤ 2 ^ 53) (hn : n.natAbs ≤ 2 ^ 53)
    (same : ((m : Float) == (n : Float)) = true) : m = n :=
  Int.cast_injective
    ((holdsSigned_beq_iff (holdsSigned_intCast hm) (holdsSigned_intCast hn)).1 same)

end Signed

/-- Rounding does not look at the sign. -/
theorem roundWithAccuracy_negative (m : ℕ) (e : ℤ) (accuracy : Accuracy) :
    roundWithAccuracy Format.binary64 .negative m e accuracy =
      (roundWithAccuracy Format.binary64 .positive m e accuracy).neg := by
  unfold roundWithAccuracy
  dsimp only
  split <;> rfl

section Quotient
variable {u v : UnpackedFloat} {a b : ℚ}

theorem div_neg_left (hu : Stands u a) (hv : Stands v b) (some : 0 < b) :
    UnpackedFloat.div Format.binary64 u.neg v = (UnpackedFloat.div Format.binary64 u v).neg := by
  cases hv with
  | zero s => exact absurd some (lt_irrefl 0)
  | finite positive' canonical' =>
    cases hu with
    | zero s => cases s <;> rfl
    | finite positive canonical => exact roundWithAccuracy_negative _ _ _

/-- The negative of a positive number is below zero, even where it is too large. -/
theorem Stands.pack_neg_lt_zero (h : Stands u a) (positive : 0 < a) :
    (pack u.neg).unpack.lt (.zero .positive) = true := by
  rcases h.unpack_pack_neg_cases with kept | ⟨infinite, -⟩
  · rw [kept]
    cases h with
    | zero s => exact absurd positive (lt_irrefl 0)
    | finite some canonical => rfl
  · rw [infinite]
    rfl

/-- What is negative and infinite stays so when it is divided by a positive number. -/
theorem Stands.infinity_div_lt_zero (hv : Stands v b) (some : 0 < b) :
    (pack (UnpackedFloat.div Format.binary64 (.infinity .negative) v)).unpack.lt
      (.zero .positive) = true := by
  cases hv with
  | zero s => exact absurd some (lt_irrefl 0)
  | finite positive canonical =>
    change (pack (.infinity .negative)).unpack.lt (.zero .positive) = true
    rw [unpack_pack_infinity]
    rfl

/-- A negative whole number divided by a count stays below zero: the quotient is not so small that
nothing would be left of it, and where the number is too large it is infinite on its side. -/
theorem intCast_div_lt_zero {m : ℤ} (negative : m < 0) {k : ℕ} (some : 0 < k)
    (small : k ≤ 2 ^ 53) : (m : Float) / (k : Float) < 0 := by
  obtain ⟨n, rfl⟩ := Int.eq_negSucc_of_lt_zero negative
  have count : Stands (k : Float).toModel.unpack k := holds_natCast small
  have positive : (0 : ℚ) < k := Nat.cast_pos.2 some
  have most : (k : ℚ) ≤ 2 ^ 53 := by exact_mod_cast small
  rw [lt_iff]
  change (pack (UnpackedFloat.div Format.binary64
    (pack ((n + 1 : ℕ) : Float).toModel.unpack.neg).unpack
    (k : Float).toModel.unpack)).unpack.lt (.zero .positive) = true
  rcases natCast_cases (n + 1) with ⟨infinite, -⟩ | ⟨r, rounds, held⟩
  · rw [infinite]
    exact count.infinity_div_lt_zero positive
  · rcases Stands.unpack_pack_neg_cases held with kept | ⟨infinite, -⟩
    · obtain ⟨c, quotient, stands⟩ := Stands.div held count positive
      have unit : Representable (2 ^ (-53 : ℤ)) := ⟨1, -53, by norm_num, by norm_num, by norm_num⟩
      have least : 1 ≤ r := rounds.ge_of_ge holds_one.representable (by simp)
      have below : (2 : ℚ) ^ (-53 : ℤ) ≤ r / k := by
        rw [le_div_iff₀ positive]
        calc (2 : ℚ) ^ (-53 : ℤ) * k ≤ 2 ^ (-53 : ℤ) * 2 ^ 53 :=
              mul_le_mul_of_nonneg_left most (two_zpow_pos _).le
          _ = 1 := by norm_num
          _ ≤ r := least
      rw [kept, div_neg_left held count positive]
      exact stands.pack_neg_lt_zero ((two_zpow_pos _).trans_le (quotient.ge_of_ge unit below))
    · rw [infinite]
      exact count.infinity_div_lt_zero positive

end Quotient

end Credence.Binary64
