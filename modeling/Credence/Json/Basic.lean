import Credence.Fields
import Credence.Scalar

/-! # Document values

A document is a tree of objects and arrays over texts, numbers, booleans and null. A number is
whole, if it was written so and fits 64 bits, or a scalar. Whole numbers compare exactly; as soon
as a scalar takes part both are compared as scalars.
-/

namespace Credence
variable {R : Type}

inductive Number (R : Type) where
  | whole (value : Int)
  | scalar (value : R)

/-- A document value. The fields of an object are in name order. -/
inductive Json (R : Type) where
  | null
  | bool (value : Bool)
  | number (value : Number R)
  | text (value : String)
  | array (items : List (Json R))
  | object (fields : List (String × Json R))

namespace Number
variable [Scalar R]

/-- A whole number keeps its spelling from the least signed to the greatest unsigned word of 64
bits; beyond them it is a scalar. -/
def ofInt (n : Int) : Number R :=
  if -9223372036854775808 ≤ n ∧ n ≤ 18446744073709551615 then .whole n else .scalar (n : R)

/-- A document holds finite numbers only. -/
def ofScalar? (value : R) : Option (Number R) :=
  if Scalar.isFinite value then some (.scalar value) else none

def toScalar : Number R → R
  | .whole n => (n : R)
  | .scalar value => value

/-- Equal as numbers, whatever the spelling. -/
def sameValue : Number R → Number R → Bool
  | .whole a, .whole b => a == b
  | a, b => a.toScalar == b.toScalar

def sameSpelling : Number R → Number R → Bool
  | .whole a, .whole b => a == b
  | .scalar a, .scalar b => a == b
  | _, _ => false

end Number

namespace Json

def kind : Json R → String
  | .null => "null"
  | .bool _ => "boolean"
  | .number _ => "number"
  | .text _ => "string"
  | .array _ => "array"
  | .object _ => "object"

/-- A scalar as a value; null where a document has no number for it. -/
def ofScalar [Scalar R] (value : R) : Json R :=
  match Number.ofScalar? value with
  | some n => .number n
  | none => .null

def ofNat [Scalar R] (n : Nat) : Json R := .number (Number.ofInt n)

def texts (words : List String) : Json R := .array (words.map .text)

def ofFields (fields : List (String × Json R)) : Json R := .object (Fields.ofList fields)

def toScalar? [Scalar R] : Json R → Option R
  | .number n => some n.toScalar
  | _ => none

def toText? : Json R → Option String
  | .text s => some s
  | _ => none

mutual

/-- Equal values; numbers of two spellings differ. -/
def same [Scalar R] : Json R → Json R → Bool
  | .null, .null => true
  | .bool a, .bool b => a == b
  | .number a, .number b => a.sameSpelling b
  | .text a, .text b => a == b
  | .array a, .array b => sameItems a b
  | .object a, .object b => sameFields a b
  | _, _ => false

def sameItems [Scalar R] : List (Json R) → List (Json R) → Bool
  | [], [] => true
  | a :: as, b :: bs => same a b && sameItems as bs
  | _, _ => false

def sameFields [Scalar R] : List (String × Json R) → List (String × Json R) → Bool
  | [], [] => true
  | (k, a) :: as, (l, b) :: bs => k == l && same a b && sameFields as bs
  | _, _ => false

end

end Json
end Credence
