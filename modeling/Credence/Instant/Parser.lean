import Credence.Decimal.Power
import Credence.Instant.Basic
import Credence.Instant.Calendar
import Credence.Text.Blank
import Credence.Text.Digits

/-! # Reading instants

A date, one separator, a time of day and an offset from universal time, with blanks allowed
between the parts. The text is read from left to right and the first fault is reported. Month,
day, hour, minute and second are checked as they are read; whether the day exists, whether the
year can be kept and whether the offset is below a day only when all is read.
-/

namespace Credence.Instant

inductive Fault where
  | premature
  | invalid
  | trailing
  | outOfRange
  | impossible
deriving DecidableEq, Repr

def Fault.message : Fault → String
  | .premature => "premature end of input"
  | .invalid => "input contains invalid characters"
  | .trailing => "trailing input"
  | .outOfRange => "input is out of range"
  | .impossible => "no possible date and time matching input"

def skipBlanks (cs : List Char) : List Char := cs.dropWhile Text.isBlank

/-- One digit or more, up to a count. -/
def number (most : Nat) (cs : List Char) : Except Fault (Nat × List Char) :=
  match cs with
  | [] => .error .premature
  | c :: _ =>
    if c.isDigit then
      let digits := (cs.take most).takeWhile Char.isDigit
      .ok (Text.digitsValue digits, cs.drop digits.length)
    else .error .invalid

/-- A number of one or two digits between two bounds, after blanks. -/
def bounded (least greatest : Nat) (cs : List Char) : Except Fault (Nat × List Char) := do
  let (n, rest) ← number 2 (skipBlanks cs)
  if least ≤ n ∧ n ≤ greatest then return (n, rest) else throw .outOfRange

/-- The years that can be spelled at all are words of 32 bits. -/
def spelledYear (year : Int) (rest : List Char) : Except Fault (Int × List Char) :=
  if -2147483648 ≤ year ∧ year ≤ 2147483647 then .ok (year, rest) else .error .outOfRange

/-- A year of up to four digits, or of any count of digits after a sign. -/
def signedYear (cs : List Char) : Except Fault (Int × List Char) :=
  match skipBlanks cs with
  | '-' :: rest => do
    let (n, rest) ← number rest.length rest
    spelledYear (-(n : Int)) rest
  | '+' :: rest => do
    let (n, rest) ← number rest.length rest
    spelledYear n rest
  | rest => do
    let (n, rest) ← number 4 rest
    spelledYear n rest

/-- A given character, after blanks. -/
def expect (wanted : Char) (cs : List Char) : Except Fault (List Char) :=
  match skipBlanks cs with
  | [] => .error .premature
  | c :: rest => if c = wanted then .ok rest else .error .invalid

def separator : List Char → Except Fault (List Char)
  | [] => .error .premature
  | c :: rest => if c = 'T' ∨ c = 't' ∨ c = ' ' then .ok rest else .error .invalid

/-- The decimal places of a second in nanoseconds; the tenth place and all after it are dropped. -/
def fraction : List Char → Except Fault (Nat × List Char)
  | '.' :: rest => do
    let (n, after) ← number 9 rest
    let count := rest.length - after.length
    return (n * Decimal.tenTo (9 - count), after.dropWhile Char.isDigit)
  | rest => .ok (0, rest)

/-- Two digits of an offset. Two bytes have to follow, whatever they are. -/
def twoDigits : List Char → Except Fault (Nat × List Char)
  | a :: b :: rest =>
    if a.isDigit && b.isDigit then .ok (Text.digitsValue [a, b], rest) else .error .invalid
  | [a] => if a.toNat < 128 then .error .premature else .error .invalid
  | [] => .error .premature

def unsignedOffset (cs : List Char) : Except Fault (Nat × List Char) := do
  let (hours, rest) ← twoDigits cs
  let rest := rest.dropWhile (fun c => c = ':' || Text.isBlank c)
  let (minutes, rest) ← twoDigits rest
  if minutes < 60 then return (hours * 3600 + minutes * 60, rest) else throw .outOfRange

/-- The letters of universal time, of either case. -/
def afterUniversal? : List Char → Option (List Char)
  | u :: t :: c :: rest =>
    if u.toUpper = 'U' ∧ t.toUpper = 'T' ∧ c.toUpper = 'C' then some rest else none
  | _ => none

def offset (cs : List Char) : Except Fault (Int × List Char) :=
  match afterUniversal? cs with
  | some rest => .ok (0, rest)
  | none =>
    match cs with
    | [] => .error .premature
    | c :: rest =>
      if c = 'Z' ∨ c = 'z' then .ok (0, rest)
      else if c = '+' then do
        let (seconds, rest) ← unsignedOffset rest
        return ((seconds : Int), rest)
      else if c = '-' ∨ c = '−' then do
        let (seconds, rest) ← unsignedOffset rest
        return (-(seconds : Int), rest)
      else .error .invalid

structure Parts where
  date : Calendar.Date
  hour : Nat
  minute : Nat
  second : Nat
  nano : Nat
  offset : Int

/-- Reads the parts, and nothing but blanks may follow. -/
def readParts (cs : List Char) : Except Fault Parts := do
  let (year, cs) ← signedYear cs
  let cs ← expect '-' cs
  let (month, cs) ← bounded 1 12 cs
  let cs ← expect '-' cs
  let (day, cs) ← bounded 1 31 cs
  let cs ← separator cs
  let (hour, cs) ← bounded 0 23 cs
  let cs ← expect ':' cs
  let (minute, cs) ← bounded 0 59 cs
  let cs ← expect ':' cs
  let (second, cs) ← bounded 0 60 cs
  let (nano, cs) ← fraction cs
  let (offset, cs) ← offset (skipBlanks cs)
  if (skipBlanks cs).isEmpty then return ⟨⟨year, month, day⟩, hour, minute, second, nano, offset⟩
  else throw .trailing

/-- The instant that the parts name. Second sixty is kept as a leap second. -/
def Parts.toInstant (p : Parts) : Except Fault Instant :=
  if !p.date.exists then .error .outOfRange
  else if 86400 ≤ p.offset.natAbs then .error .outOfRange
  else
    let second := min p.second 59
    let nano := if p.second = 60 then perSecond + p.nano else p.nano
    let t : Instant :=
      ⟨p.date.dayNumber * 86400 + (p.hour * 3600 + p.minute * 60 + second : Nat) - p.offset, nano⟩
    if (Calendar.dateOfDay t.day).exists then .ok t else .error .impossible

def parse (s : String) : Except Fault Instant := do
  let parts ← readParts s.toList
  parts.toInstant

end Credence.Instant
