import Credence.Graph.Basic

/-! # The confidences in a graph

A confidence can stand at every node and at every assertion, however deep it is nested.
-/

namespace Credence
variable {R : Type}

mutual

/-- The confidences in a value, at any depth. -/
def PropertyValue.confidences : PropertyValue R → List R
  | .literal _ => []
  | .annotated a => a.confidence.toList
  | .node n => n.confidences
  | .list items => PropertyValue.itemConfidences items

def Node.confidences : Node R → List R
  | ⟨_, _, confidence, properties⟩ =>
    confidence.toList ++ PropertyValue.fieldConfidences properties

def PropertyValue.itemConfidences : List (PropertyValue R) → List R
  | [] => []
  | v :: rest => v.confidences ++ PropertyValue.itemConfidences rest

def PropertyValue.fieldConfidences : List (String × PropertyValue R) → List R
  | [] => []
  | (_, v) :: rest => v.confidences ++ PropertyValue.fieldConfidences rest

end

def Graph.confidences (g : Graph R) : List R := g.nodes.flatMap Node.confidences

theorem PropertyValue.mem_itemConfidences {items : List (PropertyValue R)} {c : R} :
    c ∈ itemConfidences items ↔ ∃ v ∈ items, c ∈ v.confidences := by
  induction items with
  | nil => simp [itemConfidences]
  | cons v rest ih => simp [itemConfidences, ih]

theorem PropertyValue.mem_fieldConfidences {fields : List (String × PropertyValue R)} {c : R} :
    c ∈ fieldConfidences fields ↔ ∃ f ∈ fields, c ∈ f.2.confidences := by
  induction fields with
  | nil => simp [fieldConfidences]
  | cons f rest ih =>
    rcases f with ⟨name, v⟩
    simp [fieldConfidences, ih]

theorem Node.mem_confidences {n : Node R} {c : R} : c ∈ n.confidences ↔
    n.confidence = some c ∨ ∃ f ∈ n.properties, c ∈ f.2.confidences := by
  rcases n with ⟨id, types, confidence, properties⟩
  rw [confidences, List.mem_append, Option.mem_toList, PropertyValue.mem_fieldConfidences]

theorem PropertyValue.mem_confidences_of_confidence {v : PropertyValue R} {c : R}
    (h : v.confidence = some c) : c ∈ v.confidences := by
  cases v with
  | literal l | list items => cases h
  | annotated a => exact Option.mem_toList.2 h
  | node n => exact Node.mem_confidences.2 (.inl h)

end Credence
