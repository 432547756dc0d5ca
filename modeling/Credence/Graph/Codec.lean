import Credence.Assertion.Codec
import Credence.Graph.Basic

/-! # Documents of graphs

An object with a value under the reserved name is an annotated value, any other object is a node,
an array is a list and anything else but null is a literal. A node's fields are read in name order
and the first fault ends the reading; nothing is passed over. A graph is written as the list of
its nodes and read either from such a list or from a single node.
-/

namespace Credence
variable {R : Type} [Scalar R]

def readTypes : Json R → Except (ValidationError R) (List String)
  | .text s => .ok [s]
  | .array items => items.mapM (fun item =>
    match item with
    | .text s => .ok s
    | _ => .error (.malformed .typeEntryNotText))
  | _ => .error (.malformed .typeNotText)

def readConfidence (value : Json R) : Except (ValidationError R) R :=
  match value.toScalar? with
  | some c => do
    checkScore .confidence c
    return c
  | none => .error (.malformed .confidenceNotNumber)

def readId (value : Json R) : Except (ValidationError R) String :=
  match value with
  | .text s => .ok s
  | _ => .error (.malformed .idNotText)

mutual

def PropertyValue.ofJson : Json R → Except (ValidationError R) (PropertyValue R)
  | .null => .error (.malformed .nullValue)
  | .bool b => .ok (.literal (.boolean b))
  | .number n => .ok (.literal (.number n))
  | .text s => .ok (.literal (.text s))
  | .array items => do
    let items ← PropertyValue.ofItems items
    return .list items
  | .object fields =>
    if Fields.has fields Keyword.value then
      match Assertion.readFields fields with
      | .ok a => .ok (.annotated a)
      | .error fault => .error (.malformed (.badValueObject fault))
    else do
      let n ← Node.ofFields fields
      return .node n

def PropertyValue.ofItems : List (Json R) → Except (ValidationError R) (List (PropertyValue R))
  | [] => .ok []
  | item :: rest => do
    let v ← PropertyValue.ofJson item
    let vs ← PropertyValue.ofItems rest
    return v :: vs

def Node.ofFields : List (String × Json R) → Except (ValidationError R) (Node R)
  | [] => .ok Node.anonymous
  | (name, value) :: rest =>
    if name = Keyword.id then do
      let id ← readId value
      let n ← Node.ofFields rest
      return { n with id := some id }
    else if name = Keyword.type then do
      let types ← readTypes value
      let n ← Node.ofFields rest
      return { n with types := types }
    else if name = Keyword.confidence then do
      let c ← readConfidence value
      let n ← Node.ofFields rest
      return { n with confidence := some c }
    else do
      let v ← PropertyValue.ofJson value
      let n ← Node.ofFields rest
      return { n with properties := (name, v) :: n.properties }

end

def Node.ofJson : Json R → Except (ValidationError R) (Node R)
  | .object fields =>
    if Fields.has fields Keyword.value then .error (.malformed .valueObjectForNode)
    else Node.ofFields fields
  | other => .error (.malformed (.notNode other.kind))

/-- The member nodes of a graph: an array of nodes or one node. -/
def readMembers : Json R → Except (ValidationError R) (List (Node R))
  | .array items => items.mapM Node.ofJson
  | .object fields => do
    let n ← Node.ofJson (.object fields)
    return [n]
  | other => .error (.malformed (.badMembers other.kind))

/-- The graph that a document spells. Beside a list of members only the context counts; without
one the document itself is the only node. -/
def Graph.ofJson : Json R → Except (ValidationError R) (Graph R)
  | .object fields => do
    let nodes ← match Fields.get? fields Keyword.members with
      | some members => readMembers members
      | none => do
        let n ← Node.ofFields (Fields.erase fields Keyword.context)
        pure [n]
    return ⟨Fields.get? fields Keyword.context, nodes⟩
  | other => .error (.malformed (.notGraph other.kind))

/-- The types of a node as they are written: nothing, one text or an array. -/
def typesJson? : List String → Option (Json R)
  | [] => none
  | [type] => some (.text type)
  | types => some (Json.texts types)

mutual

def PropertyValue.toJson : PropertyValue R → Json R
  | .literal v => v.toJson
  | .annotated a => a.toJson
  | .node n => n.toJson
  | .list items => .array (PropertyValue.toItems items)

/-- A node as an object. A confidence that no document can hold is left out, and a property goes
over a reserved name. -/
def Node.toJson : Node R → Json R
  | ⟨id, types, confidence, properties⟩ =>
    .object (Fields.overlay
      (((Fields.insert? [] Keyword.id (id.map .text)).insert? Keyword.type
        (typesJson? types)).insert? Keyword.confidence
        ((confidence.bind Number.ofScalar?).map .number))
      (PropertyValue.toFields properties))

def PropertyValue.toItems : List (PropertyValue R) → List (Json R)
  | [] => []
  | v :: rest => v.toJson :: PropertyValue.toItems rest

def PropertyValue.toFields : List (String × PropertyValue R) → List (String × Json R)
  | [] => []
  | (name, v) :: rest => (name, v.toJson) :: PropertyValue.toFields rest

end

def Graph.toJson (g : Graph R) : Json R :=
  .object ((Fields.insert? [] Keyword.context g.context).insert Keyword.members
    (.array (g.nodes.map Node.toJson)))

def PropertyValue.read (value : Json R) : Except (RecordFault R) (PropertyValue R) :=
  (PropertyValue.ofJson value).mapError .refused

def Node.read (value : Json R) : Except (RecordFault R) (Node R) :=
  (Node.ofJson value).mapError .refused

def Graph.read (value : Json R) : Except (RecordFault R) (Graph R) :=
  (Graph.ofJson value).mapError .refused

end Credence
