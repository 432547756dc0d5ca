import Credence.Error.Basic

/-! # Records

A record is an object with fixed field names, or an array of the same values in the order in
which the fields are declared. The values of an object are checked in name order and those of an
array in its own; the first that does not pass is the fault. Only then a missing field is one,
the first in declaration order. Fields that are not declared are passed over.
-/

namespace Credence
variable {R α : Type}

/-- A declared field: its name, whether it may be left out, and what its value has to pass. -/
structure FieldRule (R : Type) where
  name : String
  optional : Bool
  check : Json R → Except (RecordFault R) Unit

def FieldRule.required (name : String) (read : Json R → Except (RecordFault R) α) : FieldRule R :=
  ⟨name, false, fun value => (read value).map (fun _ => ())⟩

def FieldRule.omissible (name : String) (read : Json R → Except (RecordFault R) α) : FieldRule R :=
  ⟨name, true, fun value => (read value).map (fun _ => ())⟩

/-- The name of a kind of record and its fields in declaration order. -/
structure Shape (R : Type) where
  name : String
  fields : List (FieldRule R)

namespace Shape

def checkField (shape : Shape R) (name : String) (value : Json R) : Except (RecordFault R) Unit :=
  match shape.fields.find? (fun rule => rule.name == name) with
  | some rule => rule.check value
  | none => .ok ()

/-- The values of an object, once each has passed its check and none is missing. -/
def readObject (shape : Shape R) (fields : Fields (Json R)) :
    Except (RecordFault R) (Fields (Json R)) := do
  fields.forM (fun field => shape.checkField field.1 field.2)
  match shape.fields.find? (fun rule => !rule.optional && !fields.has rule.name) with
  | some rule => throw (.missingField rule.name)
  | none => return fields

/-- The values of an array under the names that they stand for. -/
def readArray (shape : Shape R) (items : List (Json R)) :
    Except (RecordFault R) (Fields (Json R)) := do
  let named := (shape.fields.map FieldRule.name).zip items
  named.forM (fun field => shape.checkField field.1 field.2)
  let missing := (shape.fields.drop items.length).findIdx? (fun rule => !rule.optional)
  match missing with
  | some index =>
    throw (.wrongLength (items.length + index)
      ("struct " ++ shape.name ++ " with " ++ toString shape.fields.length ++ " elements"))
  | none =>
    if shape.fields.length < items.length then
      throw (.wrongLength items.length "fewer elements in array")
    else return Fields.ofList named

def read (shape : Shape R) : Json R → Except (RecordFault R) (Fields (Json R))
  | .object fields => shape.readObject fields
  | .array items => shape.readArray items
  | other => .error (.wrongType (.ofJson other) ("struct " ++ shape.name))

end Shape

namespace Record

def required (fields : Fields (Json R)) (name : String)
    (read : Json R → Except (RecordFault R) α) : Except (RecordFault R) α :=
  match fields.get? name with
  | some value => read value
  | none => .error (.missingField name)

def omissible (fields : Fields (Json R)) (name : String)
    (read : Json R → Except (RecordFault R) α) (default : α) : Except (RecordFault R) α :=
  match fields.get? name with
  | some value => read value
  | none => .ok default

def readScalar [Scalar R] : Json R → Except (RecordFault R) R
  | .number n => .ok n.toScalar
  | other => .error (.wrongType (.ofJson other) "f64")

def readText : Json R → Except (RecordFault R) String
  | .text s => .ok s
  | other => .error (.wrongType (.ofJson other) "a string")

/-- A natural number, spelled as a whole number. -/
def readCount : Json R → Except (RecordFault R) Nat
  | .number (.whole n) =>
    if 0 ≤ n then .ok n.toNat else .error (.wrongValue (.whole n) "usize")
  | other => .error (.wrongType (.ofJson other) "usize")

def readList (read : Json R → Except (RecordFault R) α) :
    Json R → Except (RecordFault R) (List α)
  | .array items => items.mapM read
  | other => .error (.wrongType (.ofJson other) "a sequence")

/-- Null for nothing, or a value. -/
def readNullable (read : Json R → Except (RecordFault R) α) :
    Json R → Except (RecordFault R) (Option α)
  | .null => .ok none
  | other => (read other).map some

end Record
end Credence
