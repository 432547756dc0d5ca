import Mathlib.Algebra.Group.Nat.Defs
import Credence.Text.Blank
import Credence.Text.Digits

/-! # Numbers of a fixed width

A number that is written to a width has that many digits if it fits and spells the number.
-/

namespace Credence.Text

theorem digitsValue_eq (cs : List Char) : digitsValue cs = Nat.ofDigitChars 10 cs 0 := by
  rw [Nat.ofDigitChars_eq_foldl, digitsValue]
  congr 1
  funext n c
  omega

structure Spells (cs : List Char) (n : Nat) : Prop where
  digits : ∀ c ∈ cs, c.isDigit = true
  nonempty : cs ≠ []
  value : digitsValue cs = n

theorem toList_padded (width n : Nat) : (padded width n).toList =
    List.replicate (width - (Nat.toDigits 10 n).length) '0' ++ Nat.toDigits 10 n := by
  have length : (toString n).length = (Nat.toDigits 10 n).length := by
    rw [← String.length_toList, Nat.toString_eq_repr, Nat.toList_repr]
  rw [padded, length, String.toList_append, String.toList_ofList, Nat.toString_eq_repr,
    Nat.toList_repr]

theorem spells_padded (width n : Nat) : Spells (padded width n).toList n := by
  rw [toList_padded]
  constructor
  case digits =>
    intro c hc
    rcases List.mem_append.1 hc with zero | digit
    · rw [List.eq_of_mem_replicate zero]
      rfl
    · exact Nat.isDigit_of_mem_toDigits (by decide) (by decide) digit
  case nonempty =>
    rw [ne_eq, List.append_eq_nil_iff]
    exact fun empty => Nat.toDigits_ne_nil empty.2
  case value =>
    rw [digitsValue_eq, Nat.ofDigitChars_append, Nat.ofDigitChars_replicate_zero, Nat.mul_zero,
      Nat.ofDigitChars_ten_toDigits]

theorem length_padded {width n : Nat} (positive : 0 < width) (fits : n < 10 ^ width) :
    (padded width n).toList.length = width := by
  have short := (Nat.length_toDigits_le_iff (by decide) positive).2 fits
  rw [toList_padded, List.length_append, List.length_replicate]
  omega

theorem toNat_of_isDigit {c : Char} (h : c.isDigit = true) : 48 ≤ c.toNat ∧ c.toNat ≤ 57 := by
  simpa [Char.isDigit, UInt32.le_iff_toNat_le] using h

theorem isBlank_of_isDigit {c : Char} (h : c.isDigit = true) : isBlank c = false := by
  have range := toNat_of_isDigit h
  simp only [isBlank, blanks, List.contains_eq_mem, decide_eq_false_iff_not, List.mem_cons,
    List.not_mem_nil, or_false]
  omega

theorem digitsValue_lt {cs : List Char} (digits : ∀ c ∈ cs, c.isDigit = true) :
    digitsValue cs < 10 ^ cs.length := by
  have from_start (start : Nat) :
      cs.foldl (fun n c => n * 10 + (c.toNat - '0'.toNat)) start <
        (start + 1) * 10 ^ cs.length := by
    induction cs generalizing start with
    | nil => simp
    | cons c cs ih =>
      rcases List.forall_mem_cons.1 digits with ⟨digit, digits⟩
      have range := toNat_of_isDigit digit
      have zero : '0'.toNat = 48 := rfl
      calc (c :: cs).foldl (fun n c => n * 10 + (c.toNat - '0'.toNat)) start
          < (start * 10 + (c.toNat - '0'.toNat) + 1) * 10 ^ cs.length := ih digits _
        _ ≤ ((start + 1) * 10) * 10 ^ cs.length := Nat.mul_le_mul_right _ (by omega)
        _ = (start + 1) * 10 ^ (c :: cs).length := by
          rw [List.length_cons, Nat.pow_succ']
          simp only [Nat.mul_assoc]
  have bound := from_start 0
  rwa [Nat.zero_add, Nat.one_mul] at bound

end Credence.Text
