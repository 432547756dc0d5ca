import Credence.Graph.Basic

/-! # Equal graphs

Graphs are equal that agree in every part, annotations and the order of types included. Literals
compare as facts, so two spellings of a number are equal here.
-/

namespace Credence
variable {R : Type} [Scalar R]

mutual

def PropertyValue.same : PropertyValue R → PropertyValue R → Bool
  | .literal a, .literal b => a.same b
  | .annotated a, .annotated b => a.same b
  | .node a, .node b => a.same b
  | .list a, .list b => PropertyValue.sameItems a b
  | _, _ => false

def Node.same : Node R → Node R → Bool
  | ⟨ida, ta, ca, pa⟩, ⟨idb, tb, cb, pb⟩ =>
    ida == idb && ta == tb && ca == cb && PropertyValue.sameFields pa pb

def PropertyValue.sameItems : List (PropertyValue R) → List (PropertyValue R) → Bool
  | [], [] => true
  | a :: as, b :: bs => a.same b && PropertyValue.sameItems as bs
  | _, _ => false

def PropertyValue.sameFields :
    List (String × PropertyValue R) → List (String × PropertyValue R) → Bool
  | [], [] => true
  | (k, a) :: as, (l, b) :: bs => k == l && a.same b && PropertyValue.sameFields as bs
  | _, _ => false

end

def sameContext : Option (Json R) → Option (Json R) → Bool
  | none, none => true
  | some a, some b => a.same b
  | _, _ => false

def sameNodes : List (Node R) → List (Node R) → Bool
  | [], [] => true
  | a :: as, b :: bs => a.same b && sameNodes as bs
  | _, _ => false

def Graph.same (a b : Graph R) : Bool :=
  sameContext a.context b.context && sameNodes a.nodes b.nodes

end Credence
