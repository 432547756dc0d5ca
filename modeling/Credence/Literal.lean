import Credence.Error.Basic
import Credence.Json.Printer

/-! # Literals

A literal is a fact without annotations: a truth value, a number or a text. Numbers keep their
spelling and compare by value.
-/

namespace Credence

inductive Literal (R : Type) where
  | boolean (value : Bool)
  | number (value : Number R)
  | text (value : String)

namespace Literal
variable {R : Type}

def typeName : Literal R → String
  | .boolean _ => "boolean"
  | .number _ => "number"
  | .text _ => "string"

def same [Scalar R] : Literal R → Literal R → Bool
  | .boolean a, .boolean b => a == b
  | .number a, .number b => a.sameValue b
  | .text a, .text b => a == b
  | _, _ => false

def ofScalar? [Scalar R] (value : R) : Option (Literal R) := (Number.ofScalar? value).map .number

def ofInt [Scalar R] (n : Int) : Literal R := .number (Number.ofInt n)

/-- Null, arrays and objects are no literals. -/
def ofJson? : Json R → Option (Literal R)
  | .bool b => some (.boolean b)
  | .number n => some (.number n)
  | .text s => some (.text s)
  | _ => none

def read (value : Json R) : Except (RecordFault R) (Literal R) :=
  match ofJson? value with
  | some l => .ok l
  | none => .error .noLiteral

def toJson : Literal R → Json R
  | .boolean b => .bool b
  | .number n => .number n
  | .text s => .text s

theorem ofJson?_toJson (l : Literal R) : ofJson? l.toJson = some l := by cases l <;> rfl

def boolean? : Literal R → Option Bool
  | .boolean b => some b
  | _ => none

def scalar? [Scalar R] : Literal R → Option R
  | .number n => some n.toScalar
  | _ => none

def text? : Literal R → Option String
  | .text s => some s
  | _ => none

/-- The literal inside a sentence; a text stands in quotes. -/
def display [NumberText R] : Literal R → String
  | .boolean b => if b then "true" else "false"
  | .number n => n.text
  | .text s => Text.quoted s

end Literal
end Credence
