import Credence.Error.Basic
import Credence.Text.Quoted

/-! # The wording of refusals -/

namespace Credence
variable {R : Type} [NumberText R]

def ScoreRole.text : ScoreRole → String
  | .confidence => "confidence"
  | .uncertainty => "uncertainty"
  | .probability => "probability"
  | .discordThreshold => "discord threshold"
  | .chainScore => "chain score"
  | .sourceScore => "source score"

def InputRole.text : InputRole → String
  | .opinionsToFuse => "opinions to fuse"
  | .sourceScores => "source scores"
  | .confidenceChain => "confidence chain"
  | .candidates => "conflict candidates"
  | .propertyChain => "property chain"
  | .scoresToCombine => "scores to combine"
  | .evidenceChain => "evidence chain"

def UnknownName.message (e : UnknownName) : String :=
  "Unsupported " ++ e.kind ++ " '" ++ e.name ++ "' (expected one of: " ++ e.known ++ ")"

def WalkError.message : WalkError → String
  | .missingProperty property depth =>
    "Property '" ++ property ++ "' not found at depth " ++ toString depth
  | .notTraversable property depth found =>
    "Cannot traverse into " ++ found ++ " at property '" ++ property ++ "' (depth " ++
      toString depth ++ ")"

def Component.text : Component → String
  | .belief => "belief"
  | .disbelief => "disbelief"
  | .uncertainty => "uncertainty"
  | .baseRate => "base_rate"

def OpinionFault.message : OpinionFault R → String
  | .notFinite component => component.text ++ " is not finite"
  | .outside component value =>
    component.text ++ " " ++ NumberText.plain value ++ " is outside [0, 1]"
  | .badSum sum => "components sum to " ++ NumberText.plain sum ++ ", expected 1"

def OpinionError.message (e : OpinionError R) : String :=
  "Invalid opinion (b=" ++ NumberText.plain e.belief ++ ", d=" ++ NumberText.plain e.disbelief ++
    ", u=" ++ NumberText.plain e.uncertainty ++ ", a=" ++ NumberText.plain e.baseRate ++ "): " ++
    e.fault.message

/-- A value as a sentence names it. A number stands as the document writes it. -/
def Found.phrase : Found R → String
  | .null => "null"
  | .bool true => "boolean `true`"
  | .bool false => "boolean `false`"
  | .whole n => "integer `" ++ toString n ++ "`"
  | .scalar x => "floating point `" ++ NumberText.document x ++ "`"
  | .text s => "string " ++ Text.quoted s
  | .sequence => "sequence"
  | .map => "map"

/-- The names that were expected: one alone, two joined by a word, more as a list. -/
def knownNames : List String → String
  | [] => "there are no variants"
  | [a] => "expected `" ++ a ++ "`"
  | [a, b] => "expected `" ++ a ++ "` or `" ++ b ++ "`"
  | names =>
    "expected one of " ++ String.intercalate ", " (names.map (fun name => "`" ++ name ++ "`"))

mutual

def ValidationError.message : ValidationError R → String
  | .scoreOutOfRange role value =>
    role.text ++ " value " ++ NumberText.plain value ++ " is out of range [0.0, 1.0]"
  | .emptyInput role => role.text ++ " cannot be empty"
  | .tooFewGraphs count => "merge requires at least 2 graphs, got " ++ toString count
  | .decayFactorOutOfRange factor =>
    "Decay function returned factor " ++ NumberText.plain factor ++ " outside [0.0, 1.0]"
  | .invalidElapsed elapsed =>
    "Elapsed time must be non-negative and finite, got " ++ NumberText.plain elapsed
  | .invalidHalfLife halfLife =>
    "Half-life must be positive and finite, got " ++ NumberText.plain halfLife
  | .invalidEvidence positive negative =>
    "Evidence counts must be non-negative and finite (positive=" ++ NumberText.plain positive ++
      ", negative=" ++ NumberText.plain negative ++ ")"
  | .invalidPriorWeight weight =>
    "Prior weight must be positive and finite, got " ++ NumberText.plain weight
  | .malformed fault => "Malformed document: " ++ fault.message

def DocumentFault.message : DocumentFault R → String
  | .nullValue => "null property values are not supported"
  | .badValueObject fault => "invalid value object: " ++ fault.message
  | .valueObjectForNode => "expected a node, found a value object"
  | .notNode found => "expected a node object, found " ++ found
  | .notGraph found => "expected a graph object, found " ++ found
  | .badMembers found => "@graph must be an array of nodes, found " ++ found
  | .idNotText => "@id must be a string"
  | .confidenceNotNumber => "@confidence must be a number"
  | .typeNotText => "@type must be a string or array of strings"
  | .typeEntryNotText => "@type entries must be strings"
  | .valueMissing => "assertion requires a value"
  | .strayProperty name => "value object cannot carry property " ++ Text.quoted name
  | .badOpinionRecord fault => "invalid opinion record: " ++ fault.message

def RecordFault.message : RecordFault R → String
  | .wrongType found expected => "invalid type: " ++ found.phrase ++ ", expected " ++ expected
  | .wrongValue found expected => "invalid value: " ++ found.phrase ++ ", expected " ++ expected
  | .wrongLength length expected =>
    "invalid length " ++ toString length ++ ", expected " ++ expected
  | .missingField name => "missing field `" ++ name ++ "`"
  | .unknownVariant name known => "unknown variant `" ++ name ++ "`, " ++ knownNames known
  | .noLiteral => "data did not match any variant of untagged enum BareValue"
  | .badInstant fault => fault.message
  | .refused error => error.message
  | .refusedOpinion error => error.message

end

def Error.message : Error R → String
  | .opinion error => error.message
  | .validation error => "Validation error: " ++ error.message
  | .unknownName error => "Configuration error: " ++ error.message
  | .walk error => "Traversal error: " ++ error.message

end Credence
