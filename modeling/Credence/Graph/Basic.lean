import Credence.Assertion.Basic

/-! # Graphs

A graph is a list of nodes. A node may have an identifier, has types in the order in which they
were given, may state how sure its source is of it, and has properties. The value of a property
is a literal, an assertion, a nested node or a list of values.
-/

namespace Credence

mutual

inductive PropertyValue (R : Type) where
  | literal (value : Literal R)
  | annotated (assertion : Assertion R)
  | node (node : Node R)
  | list (items : List (PropertyValue R))

/-- A node with its properties in name order. -/
structure Node (R : Type) where
  id : Option String
  types : List String
  confidence : Option R
  properties : List (String × PropertyValue R)

end

/-- A list of nodes and the context in which names are to be understood. -/
structure Graph (R : Type) where
  context : Option (Json R)
  nodes : List (Node R)

variable {R : Type}

namespace PropertyValue

/-- The confidence stated by the value itself. -/
def confidence : PropertyValue R → Option R
  | .annotated a => a.confidence
  | .node n => n.confidence
  | .literal _ | .list _ => none

def kind : PropertyValue R → String
  | .literal _ => "literal"
  | .annotated _ => "annotated value"
  | .node _ => "node"
  | .list _ => "list"

def assertion? : PropertyValue R → Option (Assertion R)
  | .annotated a => some a
  | _ => none

def node? : PropertyValue R → Option (Node R)
  | .node n => some n
  | _ => none

def ofText (s : String) : PropertyValue R := .literal (.text s)

end PropertyValue

namespace Node

/-- A node without identifier, types and properties. -/
def anonymous : Node R := ⟨none, [], none, []⟩

def ofId (id : String) : Node R := { (anonymous : Node R) with id := some id }

def isAnonymous (n : Node R) : Bool := n.id.isNone

/-- Gives a node one more type, after those that it has. -/
def withType (n : Node R) (type : String) : Node R := { n with types := n.types ++ [type] }

/-- Sets a property, in place of any earlier value. -/
def withProperty (n : Node R) (name : String) (value : PropertyValue R) : Node R :=
  { n with properties := Fields.insert n.properties name value }

def get? (n : Node R) (name : String) : Option (PropertyValue R) := Fields.get? n.properties name

def propertyNames (n : Node R) : List String := Fields.names n.properties

/-- The types of a node as a value: none, one text, or a sorted list of texts. -/
def typesValue? (n : Node R) : Option (PropertyValue R) :=
  match sortedNames n.types with
  | [] => none
  | [type] => some (.ofText type)
  | types => some (.list (types.map .ofText))

end Node

namespace Graph

def ofNodes (nodes : List (Node R)) : Graph R := ⟨none, nodes⟩

def single (n : Node R) : Graph R := ofNodes [n]

def withContext (g : Graph R) (context : Json R) : Graph R := { g with context := some context }

/-- The first node with an identifier. -/
def node? (g : Graph R) (id : String) : Option (Node R) :=
  g.nodes.find? (fun n => n.id == some id)

end Graph

/-- The identifiers of some nodes in the order in which they first appear. -/
def distinctIds (nodes : List (Node R)) : List String := (nodes.filterMap Node.id).eraseDups

/-- The types of several nodes together, sorted and each listed once. -/
def unionTypes (nodes : List (Node R)) : List String := sortedNames (nodes.flatMap Node.types)

end Credence
