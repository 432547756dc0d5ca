import Credence.Graph.Bare
import Credence.Keyword

/-! # The difference between two graphs

Nodes are matched by identifier, the first node with each; nodes without one are left out. Of a
node in both graphs every property is compared by what its values say, its types as one more
property under their reserved name.
-/

namespace Credence
variable {R : Type}

structure DiffEntry (R : Type) where
  nodeId : String
  /-- Nothing where the entry is a whole node. -/
  property : Option String
  value : PropertyValue R

/-- A property that says different things in two graphs. -/
structure ModifiedEntry (R : Type) where
  nodeId : String
  property : String
  old : PropertyValue R
  new : PropertyValue R

structure GraphDiff (R : Type) where
  added : List (DiffEntry R)
  removed : List (DiffEntry R)
  modified : List (ModifiedEntry R)
  unchanged : List (DiffEntry R)

/-- Nothing was added, removed or modified. -/
def GraphDiff.isEmpty (d : GraphDiff R) : Bool :=
  d.added.isEmpty && d.removed.isEmpty && d.modified.isEmpty

inductive Change (R : Type) where
  | added (entry : DiffEntry R)
  | removed (entry : DiffEntry R)
  | modified (entry : ModifiedEntry R)
  | unchanged (entry : DiffEntry R)

namespace Change

def added? : Change R → Option (DiffEntry R)
  | .added e => some e
  | _ => none

def removed? : Change R → Option (DiffEntry R)
  | .removed e => some e
  | _ => none

def modified? : Change R → Option (ModifiedEntry R)
  | .modified e => some e
  | _ => none

def unchanged? : Change R → Option (DiffEntry R)
  | .unchanged e => some e
  | _ => none

end Change

/-- The entries sorted by what happened, each kind in order. -/
def GraphDiff.ofChanges (changes : List (Change R)) : GraphDiff R :=
  ⟨changes.filterMap Change.added?, changes.filterMap Change.removed?,
    changes.filterMap Change.modified?, changes.filterMap Change.unchanged?⟩

/-- What a node states: its properties, and its types under their reserved name if it has any. -/
def Node.facts (n : Node R) : Fields (PropertyValue R) :=
  match n.typesValue? with
  | some types => Fields.insert n.properties Keyword.type types
  | none => Fields.erase n.properties Keyword.type

variable [Scalar R]

namespace Diff

def changeOf? (nodeId property : String) : Option (PropertyValue R) → Option (PropertyValue R) →
    Option (Change R)
  | none, none => none
  | none, some new => some (.added ⟨nodeId, some property, new⟩)
  | some old, none => some (.removed ⟨nodeId, some property, old⟩)
  | some old, some new =>
    if old.agrees new then some (.unchanged ⟨nodeId, some property, new⟩)
    else some (.modified ⟨nodeId, property, old, new⟩)

def nodeChanges (nodeId : String) (old new : Node R) : List (Change R) :=
  (sortedNames (old.facts.names ++ new.facts.names)).filterMap (fun property =>
    changeOf? nodeId property (old.facts.get? property) (new.facts.get? property))

/-- What became of a node of the first graph. -/
def fromOld (b : Graph R) (nodeId : String) (old : Node R) : List (Change R) :=
  match b.node? nodeId with
  | some new => nodeChanges nodeId old new
  | none => [.removed ⟨nodeId, none, .node old⟩]

/-- The node of the second graph, where the first has none. -/
def fromNew (a : Graph R) (nodeId : String) (new : Node R) : List (Change R) :=
  match a.node? nodeId with
  | some _ => []
  | none => [.added ⟨nodeId, none, .node new⟩]

def overNodes (g : Graph R) (entries : String → Node R → List (Change R)) : List (Change R) :=
  (distinctIds g.nodes).flatMap (fun id => ((g.node? id).map (entries id)).getD [])

end Diff

def Graph.diff (a b : Graph R) : GraphDiff R :=
  .ofChanges (Diff.overNodes a (Diff.fromOld b) ++ Diff.overNodes b (Diff.fromNew a))

end Credence
