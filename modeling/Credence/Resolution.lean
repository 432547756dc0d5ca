import Credence.Assertion.Basic
import Credence.Instant.Printer
import Credence.Scalar.Leader
import Credence.Score.Combination

/-! # Resolution of a contest

Of several assertions that compete for one property one is chosen: the surest, the latest, or the
surest of the group whose members together are the surest. Ties go to the earlier candidate.
-/

namespace Credence
variable {R : Type} [Scalar R]

inductive Strategy where
  | highest
  | recency
  | weightedVote
deriving DecidableEq, Repr

namespace Strategy

def name : Strategy → String
  | .highest => "highest"
  | .recency => "recency"
  | .weightedVote => "weighted_vote"

instance : Named Strategy where
  kind := "conflict strategy"
  all := [.highest, .recency, .weightedVote]
  name := Strategy.name
  listing := Named.blankListing ["highest", "recency", "weighted_vote"]

instance : Inhabited Strategy := ⟨.highest⟩

end Strategy

structure Resolution (R : Type) where
  winner : Assertion R
  /-- The position of the winner among the candidates. -/
  winnerIndex : Nat
  candidates : List (Assertion R)
  strategy : Strategy
  reason : String

namespace Resolution

/-- An assertion and its position among the candidates. -/
structure Candidate (R : Type) where
  index : Nat
  assertion : Assertion R

def candidatesOf (assertions : List (Assertion R)) : List (Candidate R) :=
  assertions.zipIdx.map (fun (a, i) => ⟨i, a⟩)

def surer (next best : Candidate R) : Bool :=
  best.assertion.confidenceOrDefault < next.assertion.confidenceOrDefault

/-- Is the later one, or the surer one of two from one instant. -/
def later (next best : Candidate R) : Bool :=
  best.assertion.extractedAtOrEpoch.before next.assertion.extractedAtOrEpoch ||
    (best.assertion.extractedAtOrEpoch == next.assertion.extractedAtOrEpoch && surer next best)

/-- Candidates that assert one value. -/
structure Group (R : Type) where
  first : Candidate R
  rest : List (Candidate R)

def Group.members (g : Group R) : List (Candidate R) := g.first :: g.rest

/-- Puts a candidate into the first group whose first member asserts its value, or into a group of
its own after all others. -/
def addToGroups (c : Candidate R) : List (Group R) → List (Group R)
  | [] => [⟨c, []⟩]
  | g :: rest =>
    if g.first.assertion.value.same c.assertion.value then { g with rest := g.rest ++ [c] } :: rest
    else g :: addToGroups c rest

/-- The candidates in groups, in the order in which their values first appear. -/
def groups (candidates : List (Candidate R)) : List (Group R) :=
  candidates.foldl (fun acc c => addToGroups c acc) []

/-- A group and the score that its members make together. -/
structure Ballot (R : Type) where
  group : Group R
  score : R

def ballot (g : Group R) : Except (Error R) (Ballot R) := do
  let combined ← combine (g.members.map (fun c => c.assertion.confidenceOrDefault)) .noisyOr
  return ⟨g, combined.score⟩

variable [NumberText R]

/-- The vote of the groups: the surest member of the surest group wins, as sure as the group. -/
def vote (assertions : List (Assertion R)) (first : Candidate R) (rest : List (Candidate R)) :
    Except (Error R) (Resolution R) := do
  let ballots ← (groups (first :: rest)).mapM ballot
  match ballots with
  | [] => throw (.validation (.emptyInput .candidates))
  | b :: bs =>
    let elected := leader (fun next best => decide (best.score < next.score)) b bs
    let chosen := leader surer elected.group.first elected.group.rest
    let winner ← validated (chosen.assertion.withConfidence elected.score)
    return ⟨winner, chosen.index, assertions, .weightedVote,
      "Weighted vote: " ++ toString elected.group.members.length ++ " of " ++
        toString assertions.length ++ " candidates agree (combined " ++
        NumberText.places 4 elected.score ++ ")"⟩

def decideContest (assertions : List (Assertion R)) (first : Candidate R)
    (rest : List (Candidate R)) : Strategy → Except (Error R) (Resolution R)
  | .highest =>
    let chosen := leader surer first rest
    .ok ⟨chosen.assertion, chosen.index, assertions, .highest,
      "Highest confidence (" ++ NumberText.places 4 chosen.assertion.confidenceOrDefault ++ ")"⟩
  | .recency =>
    let chosen := leader later first rest
    .ok ⟨chosen.assertion, chosen.index, assertions, .recency,
      "Most recent (" ++ chosen.assertion.extractedAtOrEpoch.printOffset ++ ")"⟩
  | .weightedVote => vote assertions first rest

end Resolution

/-- Chooses one of several assertions. A single one is always chosen. -/
def resolve [NumberText R] (assertions : List (Assertion R)) (strategy : Strategy) :
    Except (Error R) (Resolution R) := do
  validated (assertions.forM Assertion.validate)
  match Resolution.candidatesOf assertions with
  | [] => throw (.validation (.emptyInput .candidates))
  | [single] => return ⟨single.assertion, single.index, assertions, strategy, "Single candidate"⟩
  | first :: rest => Resolution.decideContest assertions first rest strategy

end Credence
