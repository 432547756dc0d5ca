import Credence.Record
import Credence.Resolution

/-! # Choices of a merge -/

namespace Credence
variable {R : Type}

/-- How disagreement on a property is settled: as a contest, or by keeping all values. -/
inductive MergeStrategy where
  | contest (strategy : Strategy)
  | union
deriving DecidableEq, Repr

namespace MergeStrategy

def name : MergeStrategy → String
  | .contest strategy => strategy.name
  | .union => "union"

def strategy? : MergeStrategy → Option Strategy
  | .contest strategy => some strategy
  | .union => none

instance : Named MergeStrategy where
  kind := "merge strategy"
  all := [.contest .highest, .contest .recency, .contest .weightedVote, .union]
  name := MergeStrategy.name
  listing := Named.blankListing ["highest", "recency", "weighted_vote", "union"]

instance : Inhabited MergeStrategy := ⟨.contest .highest⟩

end MergeStrategy

structure MergeOptions where
  strategy : MergeStrategy
  combination : Combination
deriving DecidableEq, Repr, Inhabited

namespace MergeOptions

def shape : Shape R :=
  ⟨"MergeOptions",
    [.omissible "strategy" (Named.ofJson (α := MergeStrategy)),
     .omissible "combination" (Named.ofJson (α := Combination))]⟩

def read (value : Json R) : Except (RecordFault R) MergeOptions := do
  let fields ← shape.read value
  let strategy ← Record.omissible fields "strategy" Named.ofJson default
  let combination ← Record.omissible fields "combination" Named.ofJson default
  return ⟨strategy, combination⟩

def toRecord (o : MergeOptions) : Json R :=
  Json.ofFields
    [("strategy", Named.toJson o.strategy), ("combination", Named.toJson o.combination)]

end MergeOptions
end Credence
