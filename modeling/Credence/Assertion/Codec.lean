import Credence.Assertion.Basic
import Credence.Instant.Printer
import Credence.Keyword
import Credence.Record

/-! # Value objects

An assertion is written as an object under reserved names. There are two ways to write it that
differ in which part goes over which: `toJson` puts the parts over the further keywords, `toRecord`
the further keywords over the parts. Reading accepts reserved names only.
-/

namespace Credence.Assertion
variable {R : Type} [Scalar R]

def instantJson (t : Instant) : Json R := .text t.print

def readInstant : Json R → Except (RecordFault R) Instant
  | .text s => (Instant.parse s).mapError .badInstant
  | other => .error (.wrongType (.ofJson other) "an RFC 3339 formatted date and time string")

def shape : Shape R :=
  ⟨"AssertionRecord",
    [.required Keyword.value Literal.read,
     .omissible Keyword.confidence (Record.readNullable Record.readScalar),
     .omissible Keyword.source (Record.readNullable Record.readText),
     .omissible Keyword.extractedAt (Record.readNullable readInstant),
     .omissible Keyword.method (Record.readNullable Record.readText)]⟩

/-- The fields of a value object that are none of its parts. -/
def otherFields (fields : Fields (Json R)) : Fields (Json R) :=
  fields.filter (fun field => !(shape (R := R)).fields.any (fun rule => rule.name == field.1))

def readFields (fields : Fields (Json R)) : Except (RecordFault R) (Assertion R) := do
  let fields ← shape.readObject fields
  let value ← Record.required fields Keyword.value Literal.read
  let confidence ←
    Record.omissible fields Keyword.confidence (Record.readNullable Record.readScalar) none
  let source ← Record.omissible fields Keyword.source (Record.readNullable Record.readText) none
  let extractedAt ←
    Record.omissible fields Keyword.extractedAt (Record.readNullable readInstant) none
  let method ← Record.omissible fields Keyword.method (Record.readNullable Record.readText) none
  let keywords := otherFields fields
  match keywords.find? (fun field => !Keyword.isKeyword field.1) with
  | some field => throw (.refused (.malformed (.strayProperty field.1)))
  | none =>
    let a : Assertion R := ⟨value, confidence, source, extractedAt, method, keywords⟩
    a.validate.mapError .refused
    return a

def read : Json R → Except (RecordFault R) (Assertion R)
  | .object fields => readFields fields
  | other => .error (.wrongType (.ofJson other) ("struct " ++ (shape (R := R)).name))

/-- The form of documents. A confidence that no document can hold is left out. -/
def toJson (a : Assertion R) : Json R :=
  .object
    ((((((Fields.ofList a.keywords).insert Keyword.value a.value.toJson).insert?
      Keyword.confidence ((a.confidence.bind Number.ofScalar?).map .number)).insert?
      Keyword.source (a.source.map .text)).insert?
      Keyword.extractedAt (a.extractedAt.map instantJson)).insert?
      Keyword.method (a.method.map .text))

/-- The form of records. A confidence that no document can hold is null. -/
def toRecord (a : Assertion R) : Json R :=
  let parts : Fields (Json R) :=
    (((((Fields.insert [] Keyword.value a.value.toJson).insert?
      Keyword.confidence (a.confidence.map Json.ofScalar)).insert?
      Keyword.source (a.source.map .text)).insert?
      Keyword.extractedAt (a.extractedAt.map instantJson)).insert?
      Keyword.method (a.method.map .text))
  .object (Fields.overlay parts a.keywords)

end Credence.Assertion
