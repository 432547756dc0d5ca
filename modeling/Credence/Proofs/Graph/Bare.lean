import Mathlib.Data.Int.CharZero
import Mathlib.Algebra.Order.Ring.Cast
import Credence.Graph.Bare
import Credence.Proofs.Scalar.Exact

/-! # Agreement of facts

Numbers are equal or not whichever of them comes first, and so are the facts built from them. In an
ordered field whole numbers are told apart as scalars too, so that two spellings of a number are
equal exactly where their values are, and agreement is an equivalence.
-/

namespace Credence

section
variable {R : Type} [Scalar R] [PartialEquivBEq R]

theorem Number.sameValue_comm (a b : Number R) : a.sameValue b = b.sameValue a := by
  have scalars (x y : R) : (x == y) = (y == x) := BEq.comm
  cases a with
  | whole m =>
    cases b with
    | whole n => exact Bool.beq_comm
    | scalar y => exact scalars _ y
  | scalar x =>
    cases b with
    | whole n => exact scalars x _
    | scalar y => exact scalars x y

theorem Literal.same_comm (a b : Literal R) : a.same b = b.same a := by
  cases a with
  | boolean x =>
    cases b with
    | boolean y => exact Bool.beq_comm
    | number n | text s => rfl
  | number m =>
    cases b with
    | number n => exact m.sameValue_comm n
    | boolean y | text s => rfl
  | text s =>
    cases b with
    | text t => exact Bool.beq_comm
    | boolean y | number n => rfl

namespace Bare

mutual

theorem same_comm {R : Type} [Scalar R] [PartialEquivBEq R] (a b : Bare R) :
    a.same b = b.same a := by
  cases a with
  | value l =>
    cases b with
    | value l' => simp only [same, l.same_comm]
    | node id types properties => simp only [same]
    | list items => simp only [same]
  | node id types properties =>
    cases b with
    | value l => simp only [same]
    | node id' types' properties' =>
      simp only [same, sameFields_comm properties properties', Bool.beq_comm]
    | list items => simp only [same]
  | list items =>
    cases b with
    | value l => simp only [same]
    | node id types properties => simp only [same]
    | list items' => simp only [same, sameItems_comm items items']

theorem sameItems_comm {R : Type} [Scalar R] [PartialEquivBEq R] (as bs : List (Bare R)) :
    sameItems as bs = sameItems bs as := by
  cases as with
  | nil => cases bs <;> simp only [sameItems]
  | cons a as =>
    cases bs with
    | nil => simp only [sameItems]
    | cons b bs => simp only [sameItems, same_comm a b, sameItems_comm as bs]

theorem sameFields_comm {R : Type} [Scalar R] [PartialEquivBEq R] (as bs : List (String × Bare R)) :
    sameFields as bs = sameFields bs as := by
  cases as with
  | nil => cases bs <;> simp only [sameFields]
  | cons f as =>
    rcases f with ⟨k, a⟩
    cases bs with
    | nil => simp only [sameFields]
    | cons g bs =>
      rcases g with ⟨l, b⟩
      simp only [sameFields, same_comm a b, sameFields_comm as bs, Bool.beq_comm]

end

end Bare

theorem PropertyValue.agrees_comm (v w : PropertyValue R) : v.agrees w = w.agrees v :=
  v.bare.same_comm w.bare

end

section
variable {R : Type} [Scalar R]

/-- A literal with its number spelled as a scalar. -/
def Literal.plain : Literal R → Literal R
  | .number n => .number (.scalar n.toScalar)
  | l => l

namespace Bare

mutual

/-- A fact with all numbers spelled as scalars. -/
def plain : Bare R → Bare R
  | .value l => .value l.plain
  | .node id types properties => .node id types (plainFields properties)
  | .list items => .list (plainItems items)

def plainItems : List (Bare R) → List (Bare R)
  | [] => []
  | a :: as => a.plain :: plainItems as

def plainFields : List (String × Bare R) → List (String × Bare R)
  | [] => []
  | (k, a) :: as => (k, a.plain) :: plainFields as

end

end Bare

end

variable {K : Type} [Field K] [LinearOrder K] [IsStrictOrderedRing K]

theorem Number.sameValue_iff {a b : Number K} :
    a.sameValue b = true ↔ a.toScalar = b.toScalar := by
  cases a with
  | whole m =>
    cases b with
    | whole n =>
      change (m == n) = true ↔ (m : K) = (n : K)
      rw [beq_iff_eq, Int.cast_inj]
    | scalar y => simp only [sameValue, Scalar.beq_eq_decide, decide_eq_true_iff]
  | scalar x =>
    cases b with
    | whole n => simp only [sameValue, Scalar.beq_eq_decide, decide_eq_true_iff]
    | scalar y => simp only [sameValue, Scalar.beq_eq_decide, decide_eq_true_iff]

theorem Literal.same_iff {a b : Literal K} : a.same b = true ↔ a.plain = b.plain := by
  cases a with
  | boolean x => cases b <;> simp [same, plain]
  | number m =>
    cases b with
    | number n => simp [same, plain, Number.sameValue_iff]
    | boolean y | text t => simp [same, plain]
  | text s => cases b <;> simp [same, plain]

namespace Bare

mutual

/-- Facts are the same that are equal once all numbers are spelled as scalars. -/
theorem same_iff {K : Type} [Field K] [LinearOrder K] [IsStrictOrderedRing K] (a b : Bare K) :
    a.same b = true ↔ a.plain = b.plain := by
  cases a with
  | value l => cases b <;> simp [same, plain, Literal.same_iff]
  | node id types properties =>
    cases b with
    | node id' types' properties' =>
      simp [same, plain, sameFields_iff properties properties', and_assoc]
    | value l | list items => simp [same, plain]
  | list items =>
    cases b with
    | list items' => simp [same, plain, sameItems_iff items items']
    | value l | node id types properties => simp [same, plain]

theorem sameItems_iff {K : Type} [Field K] [LinearOrder K] [IsStrictOrderedRing K]
    (as bs : List (Bare K)) : sameItems as bs = true ↔ plainItems as = plainItems bs := by
  cases as with
  | nil => cases bs <;> simp [sameItems, plainItems]
  | cons a as =>
    cases bs with
    | nil => simp [sameItems, plainItems]
    | cons b bs => simp [sameItems, plainItems, same_iff a b, sameItems_iff as bs]

theorem sameFields_iff {K : Type} [Field K] [LinearOrder K] [IsStrictOrderedRing K]
    (as bs : List (String × Bare K)) :
    sameFields as bs = true ↔ plainFields as = plainFields bs := by
  cases as with
  | nil => cases bs <;> simp [sameFields, plainFields]
  | cons f as =>
    rcases f with ⟨k, a⟩
    cases bs with
    | nil => simp [sameFields, plainFields]
    | cons g bs =>
      rcases g with ⟨l, b⟩
      simp [sameFields, plainFields, same_iff a b, sameFields_iff as bs]

end

end Bare

theorem PropertyValue.agrees_refl (v : PropertyValue K) : v.agrees v = true :=
  (Bare.same_iff v.bare v.bare).2 rfl

theorem PropertyValue.agrees_trans {u v w : PropertyValue K} (huv : u.agrees v = true)
    (hvw : v.agrees w = true) : u.agrees w = true :=
  (Bare.same_iff u.bare w.bare).2
    (((Bare.same_iff u.bare v.bare).1 huv).trans ((Bare.same_iff v.bare w.bare).1 hvw))

end Credence
