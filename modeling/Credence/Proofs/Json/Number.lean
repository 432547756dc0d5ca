import Std.Data.String.ToInt
import Credence.Json.Printer

/-! # How numbers of a document are written

The text of a whole number consists of digits behind at most one sign. What is asked of the texts
of scalars is that they begin like a number, are free of what stands behind the member of an array
or an object, and are told apart from one another and from the texts of whole numbers.
-/

namespace Credence

def Json.Delimiter (c : Char) : Prop := c = ',' ∨ c = ']' ∨ c = '\x7d'

/-- Begins like a number and ends before any delimiter. -/
structure Numeric (s : String) : Prop where
  first : ∃ c cs, s.toList = c :: cs ∧ (c.isDigit = true ∨ c = '-')
  undelimited : ∀ c ∈ s.toList, ¬ Json.Delimiter c

/-- What scalars have to be written like for documents to be told apart by their texts. -/
structure NumberText.Unambiguous (R : Type) [NumberText R] : Prop where
  injective : Function.Injective (document (R := R))
  ne_whole : ∀ (x : R) (n : Int), document x ≠ toString n
  numeric : ∀ x : R, Numeric (document x)

theorem not_delimiter {c : Char} (h : c.isDigit = true ∨ c = '-') : ¬ Json.Delimiter c := by
  rintro (rfl | rfl | rfl) <;> simp at h

theorem numeric_of_forall {s : String} (nonempty : s.toList ≠ [])
    (h : ∀ c ∈ s.toList, c.isDigit = true ∨ c = '-') : Numeric s := by
  refine ⟨?_, fun c hc => not_delimiter (h c hc)⟩
  rcases List.exists_cons_of_ne_nil nonempty with ⟨c, cs, hs⟩
  exact ⟨c, cs, hs, h c (by simp [hs])⟩

theorem Numeric.append {s t : String} (h : Numeric s)
    (undelimited : ∀ c ∈ t.toList, ¬ Json.Delimiter c) : Numeric (s ++ t) := by
  rcases h.first with ⟨c, cs, hs, first⟩
  refine ⟨⟨c, cs ++ t.toList, by rw [String.toList_append, hs, List.cons_append], first⟩, ?_⟩
  intro d hd
  rw [String.toList_append, List.mem_append] at hd
  exact hd.elim (h.undelimited d) (undelimited d)

theorem isDigit_of_mem_repr {n : Nat} {c : Char} (hc : c ∈ (Nat.repr n).toList) :
    c.isDigit = true := by
  rw [Nat.toList_repr] at hc
  exact Nat.isDigit_of_mem_toDigits (by decide) (by decide) hc

theorem numeric_repr (n : Nat) : Numeric (Nat.repr n) := by
  apply numeric_of_forall
  · rw [Nat.toList_repr]
    exact Nat.toDigits_ne_nil
  · intro c hc
    exact .inl (isDigit_of_mem_repr hc)

theorem numeric_toString (n : Int) : Numeric (toString n) := by
  cases n with
  | ofNat n => exact numeric_repr n
  | negSucc n =>
    change Numeric ("-" ++ Nat.repr (n + 1))
    apply Numeric.append
    · apply numeric_of_forall
      · simp
      · simp
    · exact (numeric_repr (n + 1)).undelimited

variable {R : Type} [NumberText R]

theorem Number.numeric_text (lawful : NumberText.Unambiguous R) (n : Number R) :
    Numeric n.text := by
  cases n with
  | whole n => exact numeric_toString n
  | scalar x => exact lawful.numeric x

theorem Number.text_injective (lawful : NumberText.Unambiguous R) :
    Function.Injective (Number.text (R := R)) := by
  intro a b h
  cases a with
  | whole m =>
    cases b with
    | whole n => rw [Int.repr_injective h]
    | scalar y => exact absurd h.symm (lawful.ne_whole y m)
  | scalar x =>
    cases b with
    | whole n => exact absurd h (lawful.ne_whole x n)
    | scalar y => rw [lawful.injective h]

end Credence
