import Mathlib.Data.Rat.Floor
import Credence.Proofs.Json.Print
import Credence.Proofs.Scalar.Exact

/-! # Texts of fractions

A fraction is written with a point where it is a count of tenths, and as a quotient otherwise. So
fractions are told apart by their texts, and from whole numbers, which have neither point nor
slash.
-/

namespace Credence.Tenths

/-- Not below zero and a whole number of tenths. -/
def Pointed (x : ℚ) : Prop := 0 ≤ x ∧ (x * 10).den = 1

instance (x : ℚ) : Decidable (Pointed x) := inferInstanceAs (Decidable (_ ∧ _))

def count (x : ℚ) : ℕ := (x * 10).num.toNat

def pointed (x : ℚ) : String := Nat.repr (count x / 10) ++ ("." ++ Nat.repr (count x % 10))

def quotient (x : ℚ) : String := toString x.num ++ ("/" ++ Nat.repr x.den)

def text (x : ℚ) : String := if Pointed x then pointed x else quotient x

instance : NumberText ℚ where
  document := text
  plain x := if x.den = 1 then toString x.num else text x
  places n x := text (round (x * 10 ^ n) / 10 ^ n)
  ofDigits digits exponent := digits * (10 : ℚ) ^ exponent

theorem eq_of_count_eq {x y : ℚ} (hx : Pointed x) (hy : Pointed y) (h : count x = count y) :
    x = y := by
  have nonneg (z : ℚ) (hz : Pointed z) : 0 ≤ (z * 10).num :=
    Rat.num_nonneg.2 (mul_nonneg hz.1 (by norm_num))
  have same : (x * 10).num = (y * 10).num := by
    have := nonneg x hx
    have := nonneg y hy
    unfold count at h
    omega
  have tenfold : x * 10 = y * 10 := Rat.ext same (hx.2.trans hy.2.symm)
  exact mul_right_cancel₀ (by norm_num) tenfold

theorem notMem_repr {c : Char} (h : c.isDigit = false) (n : ℕ) : c ∉ (Nat.repr n).toList := by
  intro hc
  rw [isDigit_of_mem_repr hc] at h
  cases h

theorem notMem_toString {c : Char} (h : c.isDigit = false) (minus : c ≠ '-') (n : ℤ) :
    c ∉ (toString n).toList := by
  cases n with
  | ofNat n => exact notMem_repr h n
  | negSucc n =>
    change c ∉ ("-" ++ Nat.repr (n + 1)).toList
    rw [String.toList_append, List.mem_append, not_or]
    exact ⟨by simpa using minus, notMem_repr h (n + 1)⟩

theorem toList_pointed (x : ℚ) : (pointed x).toList =
    (Nat.repr (count x / 10)).toList ++ '.' :: (Nat.repr (count x % 10)).toList := by
  simp [pointed]

theorem toList_quotient (x : ℚ) : (quotient x).toList =
    (toString x.num).toList ++ '/' :: (Nat.repr x.den).toList := by
  simp [quotient]

theorem pointed_injective {x y : ℚ} (hx : Pointed x) (hy : Pointed y)
    (h : pointed x = pointed y) : x = y := by
  have lists := congrArg String.toList h
  rw [toList_pointed, toList_pointed, List.append_cons_inj_of_notMem (notMem_repr (by decide) _)
    (notMem_repr (by decide) _)] at lists
  have whole := Nat.repr_injective (String.toList_inj.1 lists.1)
  have tenths := Nat.repr_injective (String.toList_inj.1 lists.2.2)
  apply eq_of_count_eq hx hy
  omega

theorem quotient_injective {x y : ℚ} (h : quotient x = quotient y) : x = y := by
  have ahead : '/' ∉ (toString x.num).toList := notMem_toString (by decide) (by decide) x.num
  have behind : '/' ∉ (Nat.repr x.den).toList := notMem_repr (by decide) x.den
  have lists := congrArg String.toList h
  rw [toList_quotient, toList_quotient, List.append_cons_inj_of_notMem ahead behind] at lists
  have numerator : toString x.num = toString y.num := String.toList_inj.1 lists.1
  have denominator : Nat.repr x.den = Nat.repr y.den := String.toList_inj.1 lists.2.2
  exact Rat.ext (Int.repr_injective numerator) (Nat.repr_injective denominator)

theorem slash_notMem_pointed (x : ℚ) : '/' ∉ (pointed x).toList := by
  rw [toList_pointed, List.mem_append, List.mem_cons, not_or, not_or]
  exact ⟨notMem_repr (by decide) _, by decide, notMem_repr (by decide) _⟩

theorem slash_mem_quotient (x : ℚ) : '/' ∈ (quotient x).toList := by
  simp [toList_quotient]

theorem point_mem_pointed (x : ℚ) : '.' ∈ (pointed x).toList := by
  simp [toList_pointed]

theorem text_injective : Function.Injective text := by
  intro x y h
  unfold text at h
  by_cases hx : Pointed x
  · by_cases hy : Pointed y
    · rw [if_pos hx, if_pos hy] at h
      exact pointed_injective hx hy h
    · rw [if_pos hx, if_neg hy] at h
      exact absurd (h ▸ slash_mem_quotient y) (slash_notMem_pointed x)
  · by_cases hy : Pointed y
    · rw [if_neg hx, if_pos hy] at h
      exact absurd (h ▸ slash_mem_quotient x) (slash_notMem_pointed y)
    · rw [if_neg hx, if_neg hy] at h
      exact quotient_injective h

theorem text_ne_toString (x : ℚ) (n : ℤ) : text x ≠ toString n := by
  intro h
  unfold text at h
  by_cases hx : Pointed x
  · rw [if_pos hx] at h
    exact notMem_toString (by decide) (by decide) n (h ▸ point_mem_pointed x)
  · rw [if_neg hx] at h
    exact notMem_toString (by decide) (by decide) n (h ▸ slash_mem_quotient x)

theorem numeric_text (x : ℚ) : Numeric (text x) := by
  unfold text
  by_cases hx : Pointed x
  · rw [if_pos hx]
    apply (numeric_repr _).append
    intro c hc
    rw [String.toList_append, List.mem_append] at hc
    rcases hc with hc | hc
    · obtain rfl : c = '.' := by simpa using hc
      simp [Json.Delimiter]
    · exact (numeric_repr _).undelimited c hc
  · rw [if_neg hx]
    apply (numeric_toString _).append
    intro c hc
    rw [String.toList_append, List.mem_append] at hc
    rcases hc with hc | hc
    · obtain rfl : c = '/' := by simpa using hc
      simp [Json.Delimiter]
    · exact (numeric_repr _).undelimited c hc

theorem unambiguous : NumberText.Unambiguous ℚ where
  injective := text_injective
  ne_whole := text_ne_toString
  numeric := numeric_text

end Credence.Tenths
