import Credence.Fields
import Credence.Literal
import Credence.Score.Basic

/-! # Assertions

An assertion is a literal with what is known of its origin: how sure its source is, which source
it is, when and how it was extracted, and further keywords that are kept as they are. Without a
confidence an assertion competes with one half, and without a time as if extracted at the start
of 1970.
-/

namespace Credence

structure Assertion (R : Type) where
  value : Literal R
  confidence : Option R
  source : Option String
  extractedAt : Option Instant
  method : Option String
  /-- Further keywords of the value object. -/
  keywords : List (String × Json R)

namespace Assertion
variable {R : Type}

def ofLiteral (value : Literal R) : Assertion R := ⟨value, none, none, none, none, []⟩

section
variable [Scalar R]

/-- The confidence of an assertion that states none. -/
def defaultConfidence : R := Scalar.oneOver 2

def confidenceOrDefault (a : Assertion R) : R := a.confidence.getD defaultConfidence

def extractedAtOrEpoch (a : Assertion R) : Instant := a.extractedAt.getD .epoch

def validate (a : Assertion R) : Except (ValidationError R) Unit :=
  match a.confidence with
  | some c => checkScore .confidence c
  | none => .ok ()

def withConfidence (a : Assertion R) (confidence : R) :
    Except (ValidationError R) (Assertion R) := do
  checkScore .confidence confidence
  return { a with confidence := some confidence }

def build (value : Option (Literal R)) (confidence : Option R) (source : Option String)
    (extractedAt : Option Instant) (method : Option String) :
    Except (ValidationError R) (Assertion R) := do
  let some value := value | throw (.malformed .valueMissing)
  let a : Assertion R := ⟨value, confidence, source, extractedAt, method, []⟩
  a.validate
  return a

/-- Equal in every part; literals compare as facts. -/
def same (a b : Assertion R) : Bool :=
  a.value.same b.value && a.confidence == b.confidence && a.source == b.source &&
    a.extractedAt == b.extractedAt && a.method == b.method &&
    Json.sameFields a.keywords b.keywords

end
end Assertion
end Credence
