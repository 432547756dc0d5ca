import Credence.Diff.Basic
import Credence.Graph.Codec
import Credence.Record

/-! # Written differences -/

namespace Credence
variable {R : Type} [Scalar R]

namespace DiffEntry

def shape : Shape R :=
  ⟨"DiffEntry",
    [.required "nodeId" Record.readText,
     .omissible "property" (Record.readNullable Record.readText),
     .required "value" PropertyValue.read]⟩

def read (value : Json R) : Except (RecordFault R) (DiffEntry R) := do
  let fields ← shape.read value
  let nodeId ← Record.required fields "nodeId" Record.readText
  let property ← Record.omissible fields "property" (Record.readNullable Record.readText) none
  let value ← Record.required fields "value" PropertyValue.read
  return ⟨nodeId, property, value⟩

/-- The entry of a whole node names no property. -/
def toRecord (e : DiffEntry R) : Json R :=
  .object ((Fields.ofList [("nodeId", .text e.nodeId), ("value", e.value.toJson)]).insert?
    "property" (e.property.map .text))

end DiffEntry

namespace ModifiedEntry

def shape : Shape R :=
  ⟨"ModifiedEntry",
    [.required "nodeId" Record.readText, .required "property" Record.readText,
     .required "old" PropertyValue.read, .required "new" PropertyValue.read]⟩

def read (value : Json R) : Except (RecordFault R) (ModifiedEntry R) := do
  let fields ← shape.read value
  let nodeId ← Record.required fields "nodeId" Record.readText
  let property ← Record.required fields "property" Record.readText
  let old ← Record.required fields "old" PropertyValue.read
  let new ← Record.required fields "new" PropertyValue.read
  return ⟨nodeId, property, old, new⟩

def toRecord (e : ModifiedEntry R) : Json R :=
  Json.ofFields [("nodeId", .text e.nodeId), ("property", .text e.property),
    ("old", e.old.toJson), ("new", e.new.toJson)]

end ModifiedEntry

namespace GraphDiff

def shape : Shape R :=
  ⟨"GraphDiff",
    [.required "added" (Record.readList DiffEntry.read),
     .required "removed" (Record.readList DiffEntry.read),
     .required "modified" (Record.readList ModifiedEntry.read),
     .required "unchanged" (Record.readList DiffEntry.read)]⟩

def read (value : Json R) : Except (RecordFault R) (GraphDiff R) := do
  let fields ← shape.read value
  let added ← Record.required fields "added" (Record.readList DiffEntry.read)
  let removed ← Record.required fields "removed" (Record.readList DiffEntry.read)
  let modified ← Record.required fields "modified" (Record.readList ModifiedEntry.read)
  let unchanged ← Record.required fields "unchanged" (Record.readList DiffEntry.read)
  return ⟨added, removed, modified, unchanged⟩

def toRecord (d : GraphDiff R) : Json R :=
  Json.ofFields [("added", .array (d.added.map DiffEntry.toRecord)),
    ("removed", .array (d.removed.map DiffEntry.toRecord)),
    ("modified", .array (d.modified.map ModifiedEntry.toRecord)),
    ("unchanged", .array (d.unchanged.map DiffEntry.toRecord))]

end GraphDiff
end Credence
