import Credence.Assertion.Codec
import Credence.Resolution
import Credence.Score.Propagation

/-! # Written scores and resolutions -/

namespace Credence
variable {R : Type} [Scalar R]

namespace PropagationResult

def shape : Shape R :=
  ⟨"PropagationResult",
    [.required "score" Record.readScalar, .required "method" (Named.ofJson (α := Propagation)),
     .required "inputScores" (Record.readList Record.readScalar),
     .omissible "trail" (Record.readList Record.readText)]⟩

def read (value : Json R) : Except (RecordFault R) (PropagationResult R) := do
  let fields ← shape.read value
  let score ← Record.required fields "score" Record.readScalar
  let method ← Record.required fields "method" Named.ofJson
  let inputScores ← Record.required fields "inputScores" (Record.readList Record.readScalar)
  let trail ← Record.omissible fields "trail" (Record.readList Record.readText) []
  return ⟨score, method, inputScores, trail⟩

/-- An empty trail is left out. -/
def toRecord (r : PropagationResult R) : Json R :=
  Json.ofFields
    ([("score", .ofScalar r.score), ("method", Named.toJson r.method),
      ("inputScores", .array (r.inputScores.map .ofScalar))] ++
      if r.trail.isEmpty then [] else [("trail", Json.texts r.trail)])

end PropagationResult

namespace CombinationResult

def shape : Shape R :=
  ⟨"CombinationResult",
    [.required "score" Record.readScalar, .required "method" (Named.ofJson (α := Combination)),
     .required "inputScores" (Record.readList Record.readScalar)]⟩

def read (value : Json R) : Except (RecordFault R) (CombinationResult R) := do
  let fields ← shape.read value
  let score ← Record.required fields "score" Record.readScalar
  let method ← Record.required fields "method" Named.ofJson
  let inputScores ← Record.required fields "inputScores" (Record.readList Record.readScalar)
  return ⟨score, method, inputScores⟩

def toRecord (r : CombinationResult R) : Json R :=
  Json.ofFields [("score", .ofScalar r.score), ("method", Named.toJson r.method),
    ("inputScores", .array (r.inputScores.map .ofScalar))]

end CombinationResult

namespace Resolution

def shape : Shape R :=
  ⟨"ConflictReport",
    [.required "winner" Assertion.read, .required "winnerIndex" Record.readCount,
     .required "candidates" (Record.readList Assertion.read),
     .required "strategy" (Named.ofJson (α := Strategy)), .required "reason" Record.readText]⟩

def read (value : Json R) : Except (RecordFault R) (Resolution R) := do
  let fields ← shape.read value
  let winner ← Record.required fields "winner" Assertion.read
  let winnerIndex ← Record.required fields "winnerIndex" Record.readCount
  let candidates ← Record.required fields "candidates" (Record.readList Assertion.read)
  let strategy ← Record.required fields "strategy" Named.ofJson
  let reason ← Record.required fields "reason" Record.readText
  return ⟨winner, winnerIndex, candidates, strategy, reason⟩

def toRecord (r : Resolution R) : Json R :=
  Json.ofFields [("winner", r.winner.toRecord), ("winnerIndex", .ofNat r.winnerIndex),
    ("candidates", .array (r.candidates.map Assertion.toRecord)),
    ("strategy", Named.toJson r.strategy), ("reason", .text r.reason)]

end Resolution
end Credence
