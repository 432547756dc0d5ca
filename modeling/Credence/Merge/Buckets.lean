import Credence.Graph.Basic

/-! # Nodes gathered by identifier

One pass over the nodes of all sources puts every node with an identifier into the bucket of that
identifier, behind the nodes that are there already. An identifier that has no bucket yet gets one
behind all others. Nodes without an identifier are set aside in the order in which they come.
-/

namespace Credence.Merge
variable {R : Type}

structure Bucket (R : Type) where
  id : String
  members : List (Node R)

/-- Puts a node into the first bucket of its identifier, or into a new one behind all others. -/
def addToBuckets (id : String) (n : Node R) : List (Bucket R) → List (Bucket R)
  | [] => [⟨id, [n]⟩]
  | b :: rest =>
    if b.id = id then { b with members := b.members ++ [n] } :: rest
    else b :: addToBuckets id n rest

structure Gathered (R : Type) where
  buckets : List (Bucket R)
  anonymous : List (Node R)

def Gathered.add (g : Gathered R) (n : Node R) : Gathered R :=
  match n.id with
  | some id => { g with buckets := addToBuckets id n g.buckets }
  | none => { g with anonymous := g.anonymous ++ [n] }

def gather (nodes : List (Node R)) : Gathered R := nodes.foldl Gathered.add ⟨[], []⟩

end Credence.Merge
