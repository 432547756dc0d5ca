import Credence.Instant.Basic
import Credence.Instant.Calendar
import Credence.Text.Digits

/-! # Written instants

An instant is written in universal time with as many decimal places of the second as it needs:
none, three, six or nine. A leap second is written as second sixty. Years that do not have four
digits carry a sign.
-/

namespace Credence.Instant

def yearText (year : Int) : String :=
  if 0 ≤ year ∧ year ≤ 9999 then Text.padded 4 year.toNat
  else (if year < 0 then "-" else "+") ++ Text.padded 4 year.natAbs

def fractionText (nanos : Nat) : String :=
  if nanos = 0 then ""
  else if nanos % 1000000 = 0 then "." ++ Text.padded 3 (nanos / 1000000)
  else if nanos % 1000 = 0 then "." ++ Text.padded 6 (nanos / 1000)
  else "." ++ Text.padded 9 nanos

/-- Date and time of day, without a mark of the zone. -/
def localText (t : Instant) : String :=
  let date := Calendar.dateOfDay t.day
  let second := t.secondOfDay
  yearText date.year ++ "-" ++ Text.padded 2 date.month ++ "-" ++ Text.padded 2 date.day ++ "T" ++
    Text.padded 2 (second / 3600) ++ ":" ++ Text.padded 2 (second / 60 % 60) ++ ":" ++
    Text.padded 2 (second % 60 + t.nano / perSecond) ++ fractionText (t.nano % perSecond)

/-- The form of documents, marked as universal time by a letter. -/
def print (t : Instant) : String := t.localText ++ "Z"

/-- The form of sentences, marked as universal time by its offset. -/
def printOffset (t : Instant) : String := t.localText ++ "+00:00"

end Credence.Instant
