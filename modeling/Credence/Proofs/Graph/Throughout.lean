import Credence.Proofs.Graph.Confidences
import Credence.Scalar

/-! # What holds throughout a graph

Assertions and nodes stand in a graph at any depth. A condition on assertions and one on nodes hold
throughout a value where they hold of every assertion and of every node in it.
-/

namespace Credence
variable {R : Type} {A B : Assertion R → Prop} {N M : Node R → Prop}

/-- One condition holds of every assertion in a value and another one of every node in it. -/
inductive PropertyValue.Throughout (A : Assertion R → Prop) (N : Node R → Prop) :
    PropertyValue R → Prop
  | literal (l : Literal R) : Throughout A N (.literal l)
  | annotated {a : Assertion R} (holds : A a) : Throughout A N (.annotated a)
  | node {n : Node R} (holds : N n) (values : ∀ f ∈ n.properties, Throughout A N f.2) :
      Throughout A N (.node n)
  | list {items : List (PropertyValue R)} (parts : ∀ v ∈ items, Throughout A N v) :
      Throughout A N (.list items)

def Graph.Throughout (A : Assertion R → Prop) (N : Node R → Prop) (g : Graph R) : Prop :=
  ∀ n ∈ g.nodes, (PropertyValue.node n).Throughout A N

namespace PropertyValue.Throughout

theorem and {v : PropertyValue R} (h : v.Throughout A N) (h' : v.Throughout B M) :
    v.Throughout (fun a => A a ∧ B a) (fun n => N n ∧ M n) := by
  induction h with
  | literal l => exact .literal l
  | annotated holds =>
    cases h' with
    | annotated holds' => exact .annotated ⟨holds, holds'⟩
  | node holds values ih =>
    cases h' with
    | node holds' values' => exact .node ⟨holds, holds'⟩ (fun f hf => ih f hf (values' f hf))
  | list parts ih =>
    cases h' with
    | list parts' => exact .list (fun v hv => ih v hv (parts' v hv))

theorem inUnit [Scalar R] (assertion : ∀ a, A a → ∀ c, a.confidence = some c → Scalar.InUnit c)
    (node : ∀ n, N n → ∀ c, n.confidence = some c → Scalar.InUnit c) {v : PropertyValue R}
    (h : v.Throughout A N) : ∀ c ∈ v.confidences, Scalar.InUnit c := by
  induction h with
  | literal l =>
    intro c hc
    cases hc
  | annotated holds =>
    intro c hc
    exact assertion _ holds c (Option.mem_toList.1 hc)
  | node holds values ih =>
    intro c hc
    rcases Node.mem_confidences.1 hc with held | ⟨f, hf, hc⟩
    · exact node _ holds c held
    · exact ih f hf c hc
  | list parts ih =>
    intro c hc
    rcases mem_itemConfidences.1 hc with ⟨v, hv, hc⟩
    exact ih v hv c hc

end PropertyValue.Throughout

theorem Node.holds_of_throughout {n : Node R} (h : (PropertyValue.node n).Throughout A N) :
    N n := by
  cases h with
  | node holds values => exact holds

theorem Node.values_of_throughout {n : Node R} (h : (PropertyValue.node n).Throughout A N) :
    ∀ f ∈ n.properties, f.2.Throughout A N := by
  cases h with
  | node holds values => exact values

theorem Graph.Throughout.and {g : Graph R} (h : g.Throughout A N) (h' : g.Throughout B M) :
    g.Throughout (fun a => A a ∧ B a) (fun n => N n ∧ M n) :=
  fun n hn => (h n hn).and (h' n hn)

theorem Graph.Throughout.inUnit [Scalar R]
    (assertion : ∀ a, A a → ∀ c, a.confidence = some c → Scalar.InUnit c)
    (node : ∀ n, N n → ∀ c, n.confidence = some c → Scalar.InUnit c) {g : Graph R}
    (h : g.Throughout A N) : ∀ c ∈ g.confidences, Scalar.InUnit c := by
  intro c hc
  rcases List.mem_flatMap.1 hc with ⟨n, hn, hc⟩
  exact (h n hn).inUnit assertion node c hc

end Credence
