import Credence.Error.Basic

/-! # Closed sets of names

Methods and strategies are chosen by name. A choice has one name, and a name outside the set is
refused with the whole set listed.
-/

namespace Credence

/-- Choices with names. -/
class Named (α : Type) where
  /-- What the names are names of. -/
  kind : String
  all : List α
  name : α → String
  /-- The names as a refusal lists them. -/
  listing : String

namespace Named
variable {α : Type} [Named α] {R : Type}

def find? (name : String) : Option α := (all (α := α)).find? (fun a => Named.name a == name)

/-- The choice with a name, or a refusal of the name. -/
def ofName (name : String) : Except UnknownName α :=
  match find? name with
  | some a => .ok a
  | none => .error ⟨kind α, name, listing α⟩

def commaListing (names : List String) : String := String.intercalate ", " names

def blankListing (names : List String) : String := String.join (names.map (· ++ " "))

def ofText (name : String) : Except (RecordFault R) α :=
  match find? name with
  | some a => .ok a
  | none => .error (.unknownVariant name ((all (α := α)).map Named.name))

/-- A choice is read from its name, or from an object whose one field has the name and holds
nothing. -/
def ofJson : Json R → Except (RecordFault R) α
  | .text s => ofText s
  | .object [(name, value)] => do
    let a ← ofText name
    match value with
    | .null => return a
    | other => throw (.wrongType (.ofJson other) "unit")
  | .object _ => .error (.wrongValue .map "map with a single key")
  | other => .error (.wrongType (.ofJson other) "string or map")

def toJson (a : α) : Json R := .text (Named.name a)

end Named
end Credence
