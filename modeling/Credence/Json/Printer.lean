import Credence.Json.Basic
import Credence.Text.Quoted

/-! # The canonical text of a document

There are no blanks, fields are in name order, and only quotes, backslashes and controls are
escaped, controls without a letter of their own by four hexadecimal digits.
-/

namespace Credence
variable {R : Type}

namespace Text

def escapedChar (c : Char) : String :=
  if c = '"' then "\\\""
  else if c = '\\' then "\\\\"
  else if c.toNat = 8 then "\\b"
  else if c.toNat = 12 then "\\f"
  else if c = '\n' then "\\n"
  else if c = '\r' then "\\r"
  else if c = '\t' then "\\t"
  else if c.toNat < 16 then "\\u000" ++ hexadecimal c.toNat
  else if c.toNat < 32 then "\\u00" ++ hexadecimal c.toNat
  else c.toString

def escaped (s : String) : String := "\"" ++ String.join (s.toList.map escapedChar) ++ "\""

end Text

variable [NumberText R]

def Number.text : Number R → String
  | .whole n => toString n
  | .scalar value => NumberText.document value

namespace Json

mutual

def print : Json R → String
  | .null => "null"
  | .bool true => "true"
  | .bool false => "false"
  | .number n => n.text
  | .text s => Text.escaped s
  | .array items => "[" ++ String.intercalate "," (printItems items) ++ "]"
  | .object fields => "\x7b" ++ String.intercalate "," (printFields fields) ++ "\x7d"

def printItems : List (Json R) → List String
  | [] => []
  | value :: rest => print value :: printItems rest

def printFields : List (String × Json R) → List String
  | [] => []
  | (name, value) :: rest => (Text.escaped name ++ ":" ++ print value) :: printFields rest

end

end Json
end Credence
