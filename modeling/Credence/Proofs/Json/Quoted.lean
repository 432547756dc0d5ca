import Mathlib.Data.List.Basic
import Credence.Json.Printer
import Credence.Json.Reader

/-! # Texts of a document read back

Reading undoes the escapes of a text one character at a time. So the text between quotes is
determined by what is written, and so is everything that stands behind the closing quote.
-/

namespace Credence.Json
open Text

theorem readText_named (budget : Nat) {letter c : Char} (rest : List Char) (hu : letter ≠ 'u')
    (h : namedEscape? letter = some c) :
    readText (budget + 1) ('\\' :: letter :: rest) =
      (readText budget rest).map (fun read => (c :: read.1, read.2)) := by
  rw [readText, h]
  · cases readText budget rest with
    | none => rfl
    | some read => rfl
  · exact hu

theorem readText_unit (budget : Nat) {a b c d : Char} {n : Nat} (rest : List Char)
    (h : readUnit [a, b, c, d] = some (n, [])) (low : n < 32) :
    readText (budget + 1) ('\\' :: 'u' :: a :: b :: c :: d :: rest) =
      (readText budget rest).map (fun read => (Char.ofNat n :: read.1, read.2)) := by
  have unit : readUnit (a :: b :: c :: d :: rest) = some (n, rest) := by
    unfold readUnit at h ⊢
    cases ha : hexDigit? a <;> cases hb : hexDigit? b <;> cases hc : hexDigit? c <;>
      cases hd : hexDigit? d <;> simp_all
  have units : readEscapedUnits (a :: b :: c :: d :: rest) = some (Char.ofNat n, rest) := by
    have small : ¬ 0xd800 ≤ n := by omega
    have small' : ¬ 0xdc00 ≤ n := by omega
    unfold readEscapedUnits
    simp [unit, small, small']
  rw [readText, units]
  simp only [Option.bind_eq_bind, Option.bind_some]
  cases readText budget rest with
  | none => rfl
  | some read => rfl

theorem readText_plain (budget : Nat) {c : Char} (rest : List Char) (quote : c ≠ '"')
    (backslash : c ≠ '\\') (high : ¬ c.toNat < 32) :
    readText (budget + 1) (c :: rest) =
      (readText budget rest).map (fun read => (c :: read.1, read.2)) := by
  rw [readText, if_neg quote, if_neg (by simp [backslash, high])]
  · cases readText budget rest with
    | none => rfl
    | some read => rfl
  · simp [backslash]
  · simp [backslash]

/-- How a control is written: by a letter of its own or by four hexadecimal digits. -/
def controlText : Nat → List Char
  | 8 => ['\\', 'b']
  | 9 => ['\\', 't']
  | 10 => ['\\', 'n']
  | 12 => ['\\', 'f']
  | 13 => ['\\', 'r']
  | n => ['\\', 'u', '0', '0', Nat.digitChar (n / 16), Nat.digitChar (n % 16)]

theorem escapedChar_control : ∀ n < 32, (escapedChar (Char.ofNat n)).toList = controlText n := by
  decide +kernel

theorem readUnit_control : ∀ n < 32,
    readUnit ['0', '0', Nat.digitChar (n / 16), Nat.digitChar (n % 16)] = some (n, []) := by
  decide +kernel

theorem readText_controlText (budget : Nat) {n : Nat} (rest : List Char) (control : n < 32) :
    readText (budget + 1) (controlText n ++ rest) =
      (readText budget rest).map (fun read => (Char.ofNat n :: read.1, read.2)) := by
  unfold controlText
  split
  · exact readText_named budget rest (by decide) rfl
  · exact readText_named budget rest (by decide) rfl
  · exact readText_named budget rest (by decide) rfl
  · exact readText_named budget rest (by decide) rfl
  · exact readText_named budget rest (by decide) rfl
  · exact readText_unit budget rest (readUnit_control n control) control

theorem escapedChar_plain {c : Char} (quote : c ≠ '"') (backslash : c ≠ '\\')
    (high : ¬ c.toNat < 32) : (escapedChar c).toList = [c] := by
  have newline : c ≠ '\n' := by
    rintro rfl
    exact high (by decide)
  have carriage : c ≠ '\r' := by
    rintro rfl
    exact high (by decide)
  have tab : c ≠ '\t' := by
    rintro rfl
    exact high (by decide)
  have backspace : c.toNat ≠ 8 := by omega
  have formfeed : c.toNat ≠ 12 := by omega
  have digits : ¬ c.toNat < 16 := by omega
  simp [escapedChar, quote, backslash, newline, carriage, tab, backspace, formfeed, digits, high]

theorem readText_escapedChar (budget : Nat) (c : Char) (rest : List Char) :
    readText (budget + 1) ((escapedChar c).toList ++ rest) =
      (readText budget rest).map (fun read => (c :: read.1, read.2)) := by
  by_cases control : c.toNat < 32
  · have written := escapedChar_control c.toNat control
    have read := readText_controlText budget rest control
    rw [Char.ofNat_toNat] at written read
    rw [written, read]
  · by_cases quote : c = '"'
    · subst quote
      exact readText_named budget rest (by decide) rfl
    · by_cases backslash : c = '\\'
      · subst backslash
        exact readText_named budget rest (by decide) rfl
      · rw [escapedChar_plain quote backslash control]
        exact readText_plain budget rest quote backslash control

/-- Reading undoes what is written between quotes and stops behind the closing one. -/
theorem readText_escapedChars {budget : Nat} (cs rest : List Char) (enough : cs.length < budget) :
    readText budget (cs.flatMap (fun c => (escapedChar c).toList) ++ '"' :: rest) =
      some (cs, rest) := by
  induction cs generalizing budget with
  | nil =>
    cases budget with
    | zero => simp at enough
    | succ budget =>
      rw [List.flatMap_nil, List.nil_append, readText, if_pos rfl]
      · simp
      · simp
  | cons c cs ih =>
    cases budget with
    | zero => simp at enough
    | succ budget =>
      rw [List.length_cons, Nat.add_lt_add_iff_right] at enough
      rw [List.flatMap_cons, List.append_assoc, readText_escapedChar, ih enough]
      rfl

theorem toList_escaped (s : String) :
    (escaped s).toList = '"' :: s.toList.flatMap (fun c => (escapedChar c).toList) ++ ['"'] := by
  unfold escaped
  simp [List.flatMap_map]

/-- A text and what follows it can be told from what is written for the text before it. -/
theorem escaped_append_inj {s t : String} {rest rest' : List Char}
    (h : (escaped s).toList ++ rest = (escaped t).toList ++ rest') : s = t ∧ rest = rest' := by
  rw [toList_escaped, toList_escaped] at h
  simp only [List.cons_append, List.append_assoc, List.nil_append, List.cons.injEq, true_and] at h
  have read := readText_escapedChars s.toList rest
    (Nat.lt_succ_of_le (Nat.le_max_left s.toList.length t.toList.length))
  have read' := readText_escapedChars t.toList rest'
    (Nat.lt_succ_of_le (Nat.le_max_right s.toList.length t.toList.length))
  rw [h, read'] at read
  rcases Prod.mk.inj (Option.some.inj read) with ⟨same, behind⟩
  exact ⟨String.toList_inj.1 same.symm, behind.symm⟩

end Credence.Json
