import Credence.Proofs.Scalar.Rounding

/-! # Packing double precision

A number is packed into 64 bits and unpacked again without loss, unless it is too large and becomes
infinite. What is unpacked has a mantissa of 53 digits or the least exponent.
-/

namespace Credence.Binary64
open Float.Model Float.Model.UnpackedFloat

theorem unpackSign_packComponents (s : Sign) (e : BitVec 11) (m : BitVec 52) :
    unpackSign (packComponents Format.binary64 s e m) = s.toBitVec := by
  change BitVec.extractLsb' 63 1 (s.toBitVec ++ e ++ m) = s.toBitVec
  rw [BitVec.extractLsb'_append_eq_of_le (by decide),
    BitVec.extractLsb'_append_eq_of_le (by decide)]
  exact BitVec.extractLsb'_eq_self

theorem ofBitVec_toBitVec (s : Sign) : Sign.ofBitVec s.toBitVec = s := by
  cases s <;> rfl

theorem toNat_implicit_append (m : BitVec 52) : (1#1 ++ m).toNat = 2 ^ 52 + m.toNat := by
  rw [BitVec.toNat_append, ← Nat.shiftLeft_add_eq_or_of_lt m.isLt]
  rfl

theorem toNat_ofNat_of_lt {w n : ℕ} (h : n < 2 ^ w) : (BitVec.ofNat w n).toNat = n := by
  rw [BitVec.toNat_ofNat, Nat.mod_eq_of_lt h]

theorem ofNat_ne {w n k : ℕ} (hn : n < 2 ^ w) (hk : k < 2 ^ w) (differ : n ≠ k) :
    BitVec.ofNat w n ≠ BitVec.ofNat w k := by
  intro same
  have same := congrArg BitVec.toNat same
  rw [toNat_ofNat_of_lt hn, toNat_ofNat_of_lt hk] at same
  exact differ same

theorem unpack_pack_zero (s : Sign) : (pack (.zero s)).unpack = .zero s := by
  cases s <;> rfl

theorem unpack_pack_infinity (s : Sign) : (pack (.infinity s)).unpack = .infinity s := by
  cases s <;> rfl

variable {s : Sign} {m : ℕ} {e : ℤ} (positive : 0 < m)

theorem pack_of_large (large : 971 < e) :
    pack (.finite s m e positive) = pack (.infinity s) := by
  have overflow : 2 ^ 11 ≤ (e + 1023 + 52).toNat + 1 := by omega
  unfold Float.Model.pack
  congr 2
  exact if_pos overflow

theorem pack_of_small (small : e ≤ 971) :
    UnpackedFloat.pack Format.binary64 (.finite s m e positive) =
      if m.log2 + 1 = 53 then packComponents Format.binary64 s
        (BitVec.ofNat 11 (e + 1023 + 52).toNat) (BitVec.ofNat 52 m)
      else packComponents Format.binary64 s 0#11 (BitVec.ofNat 52 m) :=
  if_neg (by omega : ¬ 2 ^ 11 ≤ (e + 1023 + 52).toNat + 1)

theorem unpack_pack_normal (narrow : m < 2 ^ 53) (full : 2 ^ 52 ≤ m) (least : -1074 ≤ e)
    (small : e ≤ 971) :
    (pack (.finite s m e positive)).unpack = .finite s m e positive := by
  have digits : m.log2 + 1 = 53 := by rw [(Nat.log2_eq_iff positive.ne').2 ⟨full, narrow⟩]
  have mantissa : (1#1 ++ BitVec.ofNat 52 m).toNat = m := by
    rw [toNat_implicit_append, BitVec.toNat_ofNat]
    omega
  change UnpackedFloat.unpack Format.binary64 (UnpackedFloat.pack Format.binary64 _) = _
  rw [pack_of_small positive small, if_pos digits]
  generalize spelled : BitVec.ofNat 11 (e + 1023 + 52).toNat = word
  have finite : word ≠ -1#11 := spelled ▸ ofNat_ne (k := 2047) (by omega) (by decide) (by omega)
  have normal : word ≠ 0#11 := spelled ▸ ofNat_ne (k := 0) (by omega) (by decide) (by omega)
  have exponent : (word.toNat : ℤ) - 1075 = e := by
    have : word.toNat = (e + 1023 + 52).toNat := spelled ▸ toNat_ofNat_of_lt (by omega)
    omega
  unfold UnpackedFloat.unpack
  simp only [unpackMantissa_packComponents, unpackExponent_packComponents,
    unpackSign_packComponents, ofBitVec_toBitVec, if_neg finite, if_neg normal, mantissa]
  exact congrArg (fun e => UnpackedFloat.finite s m e positive) exponent

theorem unpack_pack_subnormal (short : m < 2 ^ 52) :
    (pack (.finite s m (-1074) positive)).unpack = .finite s m (-1074) positive := by
  have digits : ¬ m.log2 + 1 = 53 := by
    have := (Nat.log2_lt positive.ne').2 short
    omega
  have some : BitVec.ofNat 52 m ≠ 0#52 := ofNat_ne short (by decide) positive.ne'
  have mantissa : (BitVec.ofNat 52 m).toNat = m := toNat_ofNat_of_lt short
  have finite : 0#11 ≠ -1#11 := by decide
  change UnpackedFloat.unpack Format.binary64 (UnpackedFloat.pack Format.binary64 _) = _
  rw [pack_of_small positive (by decide), if_neg digits]
  unfold UnpackedFloat.unpack
  simp only [unpackMantissa_packComponents, unpackExponent_packComponents,
    unpackSign_packComponents, ofBitVec_toBitVec, if_neg finite, if_pos, dif_neg some, mantissa]
  rfl

/-- A number that is not too large is packed without loss. -/
theorem unpack_pack (canonical : Canonical m e) (small : e ≤ 971) :
    (pack (.finite s m e positive)).unpack = .finite s m e positive := by
  by_cases full : 2 ^ 52 ≤ m
  · exact unpack_pack_normal positive canonical.narrow full canonical.least small
  · obtain rfl : e = -1074 := canonical.full.resolve_left full
    exact unpack_pack_subnormal positive (Nat.lt_of_not_le full)

theorem canonical_of_unpack {bits : BitVec Format.binary64.numBits}
    (h : UnpackedFloat.unpack Format.binary64 bits = .finite s m e positive) : Canonical m e := by
  let mantissa : BitVec 52 := unpackMantissa bits
  let exponent : BitVec 11 := unpackExponent bits
  have width : mantissa.toNat < 2 ^ 52 := mantissa.isLt
  unfold UnpackedFloat.unpack at h
  dsimp only at h
  split at h
  · split at h <;> cases h
  · split at h
    · next subnormal =>
      split at h
      · cases h
      · cases h
        rw [subnormal]
        exact ⟨width.trans (by decide), by decide, .inr rfl⟩
    · next normal =>
      have some : exponent.toNat ≠ 0 := fun none => normal (BitVec.eq_of_toNat_eq none)
      have least : (-1074 : ℤ) ≤ exponent.toNat - 1075 := by omega
      have implicit : (1#1 ++ mantissa).toNat = 2 ^ 52 + mantissa.toNat :=
        toNat_implicit_append mantissa
      cases h
      have narrow : (1#1 ++ mantissa).toNat < 2 ^ 53 := by omega
      have full : 2 ^ 52 ≤ (1#1 ++ mantissa).toNat := by omega
      exact ⟨narrow, least, .inl full⟩

include positive in
theorem value_of_large (large : 971 < e) : (2 : ℚ) ^ 200 < m * 2 ^ e := by
  have unit : (1 : ℚ) ≤ m := by exact_mod_cast positive
  calc (2 : ℚ) ^ 200 = 2 ^ (200 : ℤ) := by norm_num
    _ < 2 ^ e := zpow_lt_zpow_right₀ one_lt_two (by omega)
    _ ≤ m * 2 ^ e := le_mul_of_one_le_left (two_zpow_pos e).le unit

section
variable {u : UnpackedFloat} {q : ℚ}

/-- A number is packed without loss, or it is too large and becomes infinite. -/
theorem Stands.unpack_pack_cases (h : Stands u q) :
    (pack u).unpack = u ∨ (pack u).unpack = .infinity .positive ∧ 2 ^ 200 < q := by
  cases h with
  | zero s => exact .inl (unpack_pack_zero s)
  | @finite m e positive canonical =>
    rcases le_or_gt e 971 with small | large
    · exact .inl (unpack_pack positive canonical small)
    · have infinite := unpack_pack_infinity .positive
      exact .inr ⟨pack_of_large positive large ▸ infinite, value_of_large positive large⟩

theorem Stands.unpack_pack_neg_cases (h : Stands u q) :
    (pack u.neg).unpack = u.neg ∨ (pack u.neg).unpack = .infinity .negative ∧ 2 ^ 200 < q := by
  cases h with
  | zero s => exact .inl (unpack_pack_zero (-s))
  | @finite m e positive canonical =>
    rcases le_or_gt e 971 with small | large
    · exact .inl (unpack_pack positive canonical small)
    · have infinite := unpack_pack_infinity .negative
      exact .inr ⟨pack_of_large positive large ▸ infinite, value_of_large positive large⟩

theorem Stands.unpack_pack_neg (h : Stands u q) (small : q ≤ 2 ^ 200) :
    (pack u.neg).unpack = u.neg :=
  h.unpack_pack_neg_cases.resolve_right (fun large => not_lt.2 small large.2)

end

end Credence.Binary64
