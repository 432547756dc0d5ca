import Credence.Graph.Bare
import Credence.Json.Printer
import Credence.Merge.Buckets
import Credence.Merge.Report

/-! # Merging graphs

Nodes with one identifier are merged, in the order in which the identifiers first appear; nodes
without one are kept as they are, after all others. Each property of a merged node is reconciled
by itself. Where all values say the same as the first, the most confident one is kept, and where
two or more of them state a confidence it is replaced by their combination. Where they differ the
property is contested and its strategy settles it.
-/

namespace Credence
variable {R : Type} [Scalar R] [NumberText R]

namespace PropertyValue

/-- The canonical text of a value, which breaks ties and stands for nodes and lists in a contest. -/
def text (v : PropertyValue R) : String := v.toJson.print

/-- The confidence that counts when values that agree are compared. -/
def standing (v : PropertyValue R) : R := v.confidence.getD 0

/-- Ranks before another value that says the same: by confidence, and of two equally confident ones
by the lesser text. -/
def outranks (next best : PropertyValue R) : Bool :=
  match Scalar.rank next.standing best.standing with
  | .gt => true
  | .lt => false
  | .eq => decide (next.text < best.text)

/-- The value held with another confidence. A list holds none. -/
def withConfidence (v : PropertyValue R) (confidence : R) :
    Except (ValidationError R) (PropertyValue R) :=
  match v with
  | .annotated a => (a.withConfidence confidence).map .annotated
  | .literal l => ((Assertion.ofLiteral l).withConfidence confidence).map .annotated
  | .node n => .ok (.node { n with confidence := some confidence })
  | .list items => .ok (.list items)

/-- The assertion by which a value competes. A node or a list competes by its text. -/
def candidate (v : PropertyValue R) : Assertion R :=
  match v with
  | .annotated a => a
  | .literal l =>
    { Assertion.ofLiteral l with confidence := some Assertion.defaultConfidence }
  | .node n =>
    { Assertion.ofLiteral (.text v.text) with
      confidence := some (n.confidence.getD Assertion.defaultConfidence) }
  | .list _ =>
    { Assertion.ofLiteral (.text v.text) with confidence := some Assertion.defaultConfidence }

def asWinner (v : PropertyValue R) (winner : Assertion R) : PropertyValue R :=
  match v with
  | .annotated _ | .literal _ => .annotated winner
  | .node _ | .list _ => v

end PropertyValue

namespace Merge

/-- The combination of the confidences stated, if at least two are. -/
def combinedConfidence (confidences : List (Option R)) (method : Combination) :
    Except (Error R) (Option R) :=
  let stated := confidences.filterMap id
  if stated.length < 2 then .ok none
  else (combine stated method).map (fun result => some result.score)

inductive Outcome (R : Type) where
  | agreed (value : PropertyValue R)
  | contested (conflict : Conflict R)

namespace Outcome

def value : Outcome R → PropertyValue R
  | .agreed v => v
  | .contested c => c.winner

/-- Carries the account on over one property. -/
def account (report : MergeReport R) : Outcome R → MergeReport R
  | .agreed _ => report.countAgreed
  | .contested c => report.record c

end Outcome

def agree (first : PropertyValue R) (rest : List (PropertyValue R)) (method : Combination) :
    Except (Error R) (PropertyValue R) := do
  let base := leader PropertyValue.outranks first rest
  match ← combinedConfidence ((first :: rest).map PropertyValue.confidence) method with
  | none => return base
  | some combined => validated (base.withConfidence combined)

def settle (nodeId property : String) (values : List (PropertyValue R))
    (strategy : MergeStrategy) : Except (Error R) (Conflict R) :=
  match strategy with
  | .union => .ok ⟨nodeId, property, values, strategy, .list values, ""⟩
  | .contest contest => do
    let resolved ← resolve (values.map PropertyValue.candidate) contest
    let winner := match values[resolved.winnerIndex]? with
      | some v => v.asWinner resolved.winner
      | none => .annotated resolved.winner
    return ⟨nodeId, property, values, strategy, winner, resolved.reason⟩

def reconcile (options : MergeOptions) (nodeId property : String)
    (first : PropertyValue R) (rest : List (PropertyValue R)) : Except (Error R) (Outcome R) :=
  if rest.all (fun v => v.agrees first) then
    (agree first rest options.combination).map .agreed
  else (settle nodeId property (first :: rest) options.strategy).map .contested

/-- A merged node with what became of its properties. -/
structure MergedNode (R : Type) where
  id : String
  types : List String
  confidence : Option R
  outcomes : List (String × Outcome R)

namespace MergedNode

def node (m : MergedNode R) : Node R :=
  ⟨some m.id, m.types, m.confidence, m.outcomes.map (fun o => (o.1, o.2.value))⟩

end MergedNode

def valuesOf (members : List (Node R)) (property : String) : List (PropertyValue R) :=
  members.filterMap (fun n => n.get? property)

def propertyNames (members : List (Node R)) : List String :=
  sortedNames (members.flatMap Node.propertyNames)

def mergeProperty (options : MergeOptions) (nodeId : String) (members : List (Node R))
    (property : String) : Except (Error R) (List (String × Outcome R)) :=
  match valuesOf members property with
  | [] => .ok []
  | first :: rest =>
    (reconcile options nodeId property first rest).map (fun outcome => [(property, outcome)])

/-- Merges the nodes with one identifier. A confidence stated by one node alone is kept. -/
def mergeNode (options : MergeOptions) (nodeId : String) (members : List (Node R)) :
    Except (Error R) (MergedNode R) := do
  let combined ← combinedConfidence (members.map Node.confidence) options.combination
  let outcomes ← (propertyNames members).mapM (mergeProperty options nodeId members)
  return ⟨nodeId, unionTypes members, combined <|> members.findSome? Node.confidence,
    outcomes.flatten⟩

/-- The account of merged nodes, carried on from property to property. -/
def reportOf (sourceCount : Nat) (merged : List (MergedNode R)) : MergeReport R :=
  (merged.flatMap MergedNode.outcomes).foldl (fun report o => o.2.account report)
    (.start sourceCount)

end Merge

/-- Merges two graphs or more. The first context that any of them has is kept. -/
def Graph.merge (graphs : List (Graph R)) (options : MergeOptions) :
    Except (Error R) (Graph R × MergeReport R) := do
  if graphs.length < 2 then throw (.validation (.tooFewGraphs graphs.length))
  let gathered := Merge.gather (graphs.flatMap Graph.nodes)
  let merged ← gathered.buckets.mapM (fun b => Merge.mergeNode options b.id b.members)
  let graph : Graph R :=
    ⟨graphs.findSome? Graph.context,
      merged.map Merge.MergedNode.node ++ gathered.anonymous⟩
  return (graph, Merge.reportOf graphs.length merged)

end Credence
