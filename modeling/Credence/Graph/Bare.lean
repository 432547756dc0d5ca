import Credence.Graph.Basic

/-! # Bare facts

The bare view of a value is what it says when confidence and origin are left out: a literal, a
node by its identifier, its set of types and the bare views of its properties, or a list of bare
views. Two sources agree on a property where the bare views of their values are the same.
-/

namespace Credence

/-- A value without annotations. -/
inductive Bare (R : Type) where
  | value (value : Literal R)
  | node (id : Option String) (types : List String) (properties : List (String × Bare R))
  | list (items : List (Bare R))

variable {R : Type}

mutual

def PropertyValue.bare : PropertyValue R → Bare R
  | .literal v => .value v
  | .annotated a => .value a.value
  | .node n => n.bare
  | .list items => .list (PropertyValue.bareItems items)

def Node.bare : Node R → Bare R
  | ⟨id, types, _, properties⟩ =>
    .node id (sortedNames types) (PropertyValue.bareFields properties)

def PropertyValue.bareItems : List (PropertyValue R) → List (Bare R)
  | [] => []
  | v :: rest => v.bare :: PropertyValue.bareItems rest

def PropertyValue.bareFields : List (String × PropertyValue R) → List (String × Bare R)
  | [] => []
  | (name, v) :: rest => (name, v.bare) :: PropertyValue.bareFields rest

end

theorem PropertyValue.bareItems_eq_map (items : List (PropertyValue R)) :
    PropertyValue.bareItems items = items.map PropertyValue.bare := by
  induction items with
  | nil => rfl
  | cons v rest ih => simp [PropertyValue.bareItems, ih]

theorem PropertyValue.bareFields_eq_map (fields : List (String × PropertyValue R)) :
    PropertyValue.bareFields fields = fields.map (fun f => (f.1, f.2.bare)) := by
  induction fields with
  | nil => rfl
  | cons f rest ih => obtain ⟨name, v⟩ := f; simp [PropertyValue.bareFields, ih]

namespace Bare
variable [Scalar R]

mutual

def same : Bare R → Bare R → Bool
  | .value a, .value b => a.same b
  | .node ida ta pa, .node idb tb pb => ida == idb && ta == tb && sameFields pa pb
  | .list a, .list b => sameItems a b
  | _, _ => false

def sameItems : List (Bare R) → List (Bare R) → Bool
  | [], [] => true
  | a :: as, b :: bs => same a b && sameItems as bs
  | _, _ => false

def sameFields : List (String × Bare R) → List (String × Bare R) → Bool
  | [], [] => true
  | (k, a) :: as, (l, b) :: bs => k == l && same a b && sameFields as bs
  | _, _ => false

end

end Bare

def PropertyValue.agrees [Scalar R] (a b : PropertyValue R) : Bool := a.bare.same b.bare

end Credence
