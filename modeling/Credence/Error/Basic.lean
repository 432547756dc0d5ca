import Credence.Instant.Parser
import Credence.Json.Basic

/-! # Why an operation refuses

Each refusal names its cause together with the values that show it; the wording is elsewhere. A
value of a document can be refused for being malformed, and a record inside it for a fault of one
of its fields, which may itself be a refusal of the value that the field holds.
-/

namespace Credence

inductive ScoreRole where
  | confidence
  | uncertainty
  | probability
  | discordThreshold
  | chainScore
  | sourceScore
deriving DecidableEq, Repr

inductive InputRole where
  | opinionsToFuse
  | sourceScores
  | confidenceChain
  | candidates
  | propertyChain
  | scoresToCombine
  | evidenceChain
deriving DecidableEq, Repr

structure UnknownName where
  /-- What the names are names of. -/
  kind : String
  name : String
  /-- The names that are known, as they are listed in a sentence. -/
  known : String
deriving DecidableEq, Repr

/-- A walk along property names that cannot go on. -/
inductive WalkError where
  | missingProperty (property : String) (depth : Nat)
  | notTraversable (property : String) (depth : Nat) (found : String)
deriving DecidableEq, Repr

inductive Component where
  | belief
  | disbelief
  | uncertainty
  | baseRate
deriving DecidableEq, Repr

/-- What four numbers lack to be an opinion. -/
inductive OpinionFault (R : Type) where
  | notFinite (component : Component)
  | outside (component : Component) (value : R)
  | badSum (sum : R)

structure OpinionError (R : Type) where
  belief : R
  disbelief : R
  uncertainty : R
  baseRate : R
  fault : OpinionFault R

/-- A value met in place of another, as a sentence names it. -/
inductive Found (R : Type) where
  | null
  | bool (value : Bool)
  | whole (value : Int)
  | scalar (value : R)
  | text (value : String)
  | sequence
  | map

def Found.ofJson {R : Type} : Json R → Found R
  | .null => .null
  | .bool b => .bool b
  | .number (.whole n) => .whole n
  | .number (.scalar x) => .scalar x
  | .text s => .text s
  | .array _ => .sequence
  | .object _ => .map

mutual

inductive ValidationError (R : Type) where
  | scoreOutOfRange (role : ScoreRole) (value : R)
  | emptyInput (role : InputRole)
  | tooFewGraphs (count : Nat)
  | decayFactorOutOfRange (factor : R)
  | invalidElapsed (elapsed : R)
  | invalidHalfLife (halfLife : R)
  | invalidEvidence (positive negative : R)
  | invalidPriorWeight (weight : R)
  | malformed (fault : DocumentFault R)

/-- Why a value is no part of a document. -/
inductive DocumentFault (R : Type) where
  | nullValue
  | badValueObject (fault : RecordFault R)
  | valueObjectForNode
  | notNode (found : String)
  | notGraph (found : String)
  | badMembers (found : String)
  | idNotText
  | confidenceNotNumber
  | typeNotText
  | typeEntryNotText
  | valueMissing
  | strayProperty (name : String)
  | badOpinionRecord (fault : RecordFault R)

/-- Why a value is no record. -/
inductive RecordFault (R : Type) where
  | wrongType (found : Found R) (expected : String)
  | wrongValue (found : Found R) (expected : String)
  | wrongLength (length : Nat) (expected : String)
  | missingField (name : String)
  | unknownVariant (name : String) (known : List String)
  | noLiteral
  | badInstant (fault : Instant.Fault)
  | refused (error : ValidationError R)
  | refusedOpinion (error : OpinionError R)

end

/-- Why an operation on opinions, scores or graphs refuses. -/
inductive Error (R : Type) where
  | opinion (error : OpinionError R)
  | validation (error : ValidationError R)
  | unknownName (error : UnknownName)
  | walk (error : WalkError)

def validated {R α : Type} : Except (ValidationError R) α → Except (Error R) α :=
  Except.mapError .validation

end Credence
