import Credence.Graph.Codec
import Credence.Merge.Options

/-! # The account of a merge

Properties are counted one by one, by whether their values agree and else by the strategy that has
settled them. Those that took a strategy have a record of the competing values and of the value
written.
-/

namespace Credence
variable {R : Type}

structure Conflict (R : Type) where
  nodeId : String
  property : String
  /-- The competing values in input order. -/
  values : List (PropertyValue R)
  strategy : MergeStrategy
  /-- The value written. -/
  winner : PropertyValue R
  /-- Why it was chosen; empty where nothing was. -/
  reason : String

structure MergeReport (R : Type) where
  sourceCount : Nat
  /-- Properties on which all sources agree, those of a single source included. -/
  propertiesAgreed : Nat
  propertiesConflicted : Nat
  propertiesUnioned : Nat
  conflicts : List (Conflict R)

namespace MergeReport

def start (sourceCount : Nat) : MergeReport R := ⟨sourceCount, 0, 0, 0, []⟩

def countAgreed (r : MergeReport R) : MergeReport R :=
  { r with propertiesAgreed := r.propertiesAgreed + 1 }

/-- Counts a contested property by the strategy that has settled it, and keeps its record. -/
def record (r : MergeReport R) (c : Conflict R) : MergeReport R :=
  match c.strategy with
  | .contest _ =>
    { r with
      propertiesConflicted := r.propertiesConflicted + 1
      conflicts := r.conflicts ++ [c] }
  | .union =>
    { r with
      propertiesUnioned := r.propertiesUnioned + 1
      conflicts := r.conflicts ++ [c] }

@[simp] theorem sourceCount_record (r : MergeReport R) (c : Conflict R) :
    (r.record c).sourceCount = r.sourceCount := by
  unfold record
  split <;> rfl

@[simp] theorem propertiesAgreed_record (r : MergeReport R) (c : Conflict R) :
    (r.record c).propertiesAgreed = r.propertiesAgreed := by
  unfold record
  split <;> rfl

@[simp] theorem conflicts_record (r : MergeReport R) (c : Conflict R) :
    (r.record c).conflicts = r.conflicts ++ [c] := by
  unfold record
  split <;> rfl

def total (r : MergeReport R) : Nat :=
  r.propertiesAgreed + r.propertiesConflicted + r.propertiesUnioned

/-- No property took a strategy. -/
def isClean (r : MergeReport R) : Bool := r.conflicts.isEmpty

def display (r : MergeReport R) : String :=
  "merged " ++ toString r.sourceCount ++ " graphs: " ++ toString r.propertiesAgreed ++
    " agreed, " ++ toString r.propertiesConflicted ++ " conflicted, " ++
    toString r.propertiesUnioned ++ " unioned"

end MergeReport

variable [Scalar R]

namespace Conflict

def shape : Shape R :=
  ⟨"ConflictRecord",
    [.required "nodeId" Record.readText, .required "property" Record.readText,
     .required "values" (Record.readList PropertyValue.read),
     .required "strategy" (Named.ofJson (α := MergeStrategy)),
     .required "winner" PropertyValue.read, .omissible "reason" Record.readText]⟩

def read (value : Json R) : Except (RecordFault R) (Conflict R) := do
  let fields ← shape.read value
  let nodeId ← Record.required fields "nodeId" Record.readText
  let property ← Record.required fields "property" Record.readText
  let values ← Record.required fields "values" (Record.readList PropertyValue.read)
  let strategy ← Record.required fields "strategy" Named.ofJson
  let winner ← Record.required fields "winner" PropertyValue.read
  let reason ← Record.omissible fields "reason" Record.readText ""
  return ⟨nodeId, property, values, strategy, winner, reason⟩

/-- An empty reason is left out. -/
def toRecord (c : Conflict R) : Json R :=
  Json.ofFields
    ([("nodeId", .text c.nodeId), ("property", .text c.property),
      ("values", .array (c.values.map PropertyValue.toJson)),
      ("strategy", Named.toJson c.strategy), ("winner", c.winner.toJson)] ++
      if c.reason.isEmpty then [] else [("reason", .text c.reason)])

end Conflict

namespace MergeReport

def shape : Shape R :=
  ⟨"MergeReport",
    [.required "sourceCount" Record.readCount, .required "propertiesAgreed" Record.readCount,
     .required "propertiesConflicted" Record.readCount,
     .required "propertiesUnioned" Record.readCount,
     .required "conflicts" (Record.readList Conflict.read)]⟩

def read (value : Json R) : Except (RecordFault R) (MergeReport R) := do
  let fields ← shape.read value
  let sourceCount ← Record.required fields "sourceCount" Record.readCount
  let agreed ← Record.required fields "propertiesAgreed" Record.readCount
  let conflicted ← Record.required fields "propertiesConflicted" Record.readCount
  let unioned ← Record.required fields "propertiesUnioned" Record.readCount
  let conflicts ← Record.required fields "conflicts" (Record.readList Conflict.read)
  return ⟨sourceCount, agreed, conflicted, unioned, conflicts⟩

def toRecord (r : MergeReport R) : Json R :=
  Json.ofFields
    [("sourceCount", .ofNat r.sourceCount), ("propertiesAgreed", .ofNat r.propertiesAgreed),
     ("propertiesConflicted", .ofNat r.propertiesConflicted),
     ("propertiesUnioned", .ofNat r.propertiesUnioned),
     ("conflicts", .array (r.conflicts.map Conflict.toRecord))]

end MergeReport
end Credence
