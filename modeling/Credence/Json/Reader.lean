import Credence.Json.Basic
import Credence.Text.Digits

/-! # Reading the text of a document

A number with a point or an exponent is a scalar and any other is whole, but negative zero is a
scalar since no whole number is. Of a repeated name the last value counts. Reading stops where
the text breaks the grammar; each step uses up one unit of a budget that the text's length covers.
-/

namespace Credence.Json
variable {R : Type} [Scalar R] [NumberText R]

def skipBlanks (cs : List Char) : List Char :=
  cs.dropWhile (fun c => c = ' ' || c = '\n' || c = '\r' || c = '\t')

def hexDigit? (c : Char) : Option Nat :=
  if c.isDigit then some (c.toNat - '0'.toNat)
  else if 'a' ≤ c ∧ c ≤ 'f' then some (c.toNat - 'a'.toNat + 10)
  else if 'A' ≤ c ∧ c ≤ 'F' then some (c.toNat - 'A'.toNat + 10)
  else none

/-- Four hexadecimal digits and what follows them. -/
def readUnit : List Char → Option (Nat × List Char)
  | a :: b :: c :: d :: rest => do
    let a ← hexDigit? a
    let b ← hexDigit? b
    let c ← hexDigit? c
    let d ← hexDigit? d
    return (((a * 16 + b) * 16 + c) * 16 + d, rest)
  | _ => none

/-- The character of one or two escaped units, and what follows them. -/
def readEscapedUnits (cs : List Char) : Option (Char × List Char) := do
  let (first, rest) ← readUnit cs
  if 0xd800 ≤ first ∧ first < 0xdc00 then
    match rest with
    | '\\' :: 'u' :: more =>
      let (second, rest) ← readUnit more
      if 0xdc00 ≤ second ∧ second < 0xe000 then
        return (Char.ofNat (0x10000 + (first - 0xd800) * 0x400 + (second - 0xdc00)), rest)
      else none
    | _ => none
  else if 0xdc00 ≤ first ∧ first < 0xe000 then none
  else return (Char.ofNat first, rest)

/-- The character that a letter stands for after a backslash. -/
def namedEscape? (c : Char) : Option Char :=
  if c = '"' then some '"'
  else if c = '\\' then some '\\'
  else if c = '/' then some '/'
  else if c = 'b' then some (Char.ofNat 8)
  else if c = 'f' then some (Char.ofNat 12)
  else if c = 'n' then some '\n'
  else if c = 'r' then some '\r'
  else if c = 't' then some '\t'
  else none

/-- The characters up to the closing quote, and what follows it. -/
def readText : Nat → List Char → Option (List Char × List Char)
  | 0, _ => none
  | _, [] => none
  | budget + 1, '\\' :: 'u' :: rest => do
    let (c, rest) ← readEscapedUnits rest
    let (cs, rest) ← readText budget rest
    return (c :: cs, rest)
  | budget + 1, '\\' :: c :: rest => do
    let c ← namedEscape? c
    let (cs, rest) ← readText budget rest
    return (c :: cs, rest)
  | budget + 1, c :: rest =>
    if c = '"' then some ([], rest)
    else if c = '\\' || c.toNat < 32 then none
    else do
      let (cs, rest) ← readText budget rest
      return (c :: cs, rest)

/-- The exponent part, if there is one: its value and what follows. -/
def readExponent : List Char → Option (Option Int × List Char)
  | c :: rest =>
    if c = 'e' || c = 'E' then
      let (negative, rest) := match rest with
        | '-' :: more => (true, more)
        | '+' :: more => (false, more)
        | _ => (false, rest)
      let digits := rest.takeWhile Char.isDigit
      if digits.isEmpty then none
      else
        let n : Int := Text.digitsValue digits
        some (some (if negative then -n else n), rest.dropWhile Char.isDigit)
    else some (none, c :: rest)
  | [] => some (none, [])

def readNumber (cs : List Char) : Option (Number R × List Char) := do
  let (negative, cs) := match cs with
    | '-' :: rest => (true, rest)
    | _ => (false, cs)
  let whole := cs.takeWhile Char.isDigit
  if whole.isEmpty then none
  let rest := cs.dropWhile Char.isDigit
  let (places, rest) := match rest with
    | '.' :: more => (some (more.takeWhile Char.isDigit), more.dropWhile Char.isDigit)
    | _ => (none, rest)
  if places == some [] then none
  let (exponent, rest) ← readExponent rest
  if places.isNone && exponent.isNone && !(negative && Text.digitsValue whole = 0) then
    let n : Int := Text.digitsValue whole
    return (Number.ofInt (if negative then -n else n), rest)
  else
    let decimals := places.getD []
    let value : R := NumberText.ofDigits (Text.digitsValue (whole ++ decimals))
      (exponent.getD 0 - (decimals.length : Int))
    return (.scalar (if negative then -value else value), rest)

mutual

def readValue : Nat → List Char → Option (Json R × List Char)
  | 0, _ => none
  | budget + 1, cs =>
    match skipBlanks cs with
    | 'n' :: 'u' :: 'l' :: 'l' :: rest => some (.null, rest)
    | 't' :: 'r' :: 'u' :: 'e' :: rest => some (.bool true, rest)
    | 'f' :: 'a' :: 'l' :: 's' :: 'e' :: rest => some (.bool false, rest)
    | '"' :: rest => do
      let (s, rest) ← readText (rest.length + 1) rest
      return (.text (String.ofList s), rest)
    | '[' :: rest => do
      match skipBlanks rest with
      | ']' :: rest => return (.array [], rest)
      | rest =>
        let (items, rest) ← readItems budget rest
        return (.array items, rest)
    | '\x7b' :: rest => do
      match skipBlanks rest with
      | '\x7d' :: rest => return (.object [], rest)
      | rest =>
        let (fields, rest) ← readFields budget rest
        return (ofFields fields, rest)
    | rest => (readNumber rest).map (fun (n, rest) => (.number n, rest))

/-- The items of an array up to its closing bracket. -/
def readItems : Nat → List Char → Option (List (Json R) × List Char)
  | 0, _ => none
  | budget + 1, cs => do
    let (value, rest) ← readValue budget cs
    match skipBlanks rest with
    | ']' :: rest => return ([value], rest)
    | ',' :: rest =>
      let (values, rest) ← readItems budget rest
      return (value :: values, rest)
    | _ => none

def readFields : Nat → List Char → Option (List (String × Json R) × List Char)
  | 0, _ => none
  | budget + 1, cs =>
    match skipBlanks cs with
    | '"' :: rest => do
      let (name, rest) ← readText (rest.length + 1) rest
      match skipBlanks rest with
      | ':' :: rest =>
        let (value, rest) ← readValue budget rest
        match skipBlanks rest with
        | '\x7d' :: rest => return ([(String.ofList name, value)], rest)
        | ',' :: rest =>
          let (fields, rest) ← readFields budget rest
          return ((String.ofList name, value) :: fields, rest)
        | _ => none
      | _ => none
    | _ => none

end

def ofText? (s : String) : Option (Json R) :=
  let cs := s.toList
  match readValue (cs.length + 1) cs with
  | some (value, rest) => if (skipBlanks rest).isEmpty then some value else none
  | none => none

end Credence.Json
