import Credence.Graph.Basic
import Credence.Score.Propagation

/-! # Walks through a graph

A walk follows property names from a node through nested nodes and collects the confidences that
it meets. A nested node counts with its own confidence and the walk goes on from it; an annotated
value counts with its confidence and ends the walk, whatever names are left. Literals and lists
count fully and cannot be walked through. What states no confidence counts fully.
-/

namespace Credence
variable {R : Type} [Scalar R]

/-- The score of a link, and of any value that states no confidence. -/
def linkConfidence : R := 1

inductive Place (R : Type) where
  | node (node : Node R)
  /-- Before a value that cannot be walked through, by the name of its kind. -/
  | blocked (found : String)

/-- The scores met on a walk and the names walked. -/
structure Trail (R : Type) where
  scores : List R
  names : List String

def Trail.cons (score : R) (name : String) (t : Trail R) : Trail R :=
  ⟨score :: t.scores, name :: t.names⟩

namespace Place

def walk (place : Place R) (depth : Nat) : List String → Except (Error R) (Trail R)
  | [] => .ok ⟨[], []⟩
  | name :: rest =>
    match place with
    | .blocked found => .error (.walk (.notTraversable name depth found))
    | .node n =>
      match n.get? name with
      | none => .error (.walk (.missingProperty name depth))
      | some (.annotated a) => .ok ⟨[a.confidence.getD linkConfidence], [name]⟩
      | some (.node child) =>
        (walk (.node child) (depth + 1) rest).map
          (.cons (child.confidence.getD linkConfidence) name)
      | some value =>
        (walk (.blocked value.kind) (depth + 1) rest).map (.cons linkConfidence name)

end Place

/-- Propagates the confidences met on a walk from a node along property names. -/
def propagateAlong [Elementary R] (root : Node R) (chain : List String) (method : Propagation) :
    Except (Error R) (PropagationResult R) := do
  if chain.isEmpty then throw (.validation (.emptyInput .propertyChain))
  let trail ← Place.walk (.node root) 0 chain
  let result ← propagate trail.scores method
  return { result with trail := trail.names }

end Credence
