/-! # Instants

An instant is a second of universal time and a part of it in nanoseconds. The part may reach into
a second second: that is how an inserted leap second is kept, as a stretch of the second before
it. Two instants rank by their seconds first.
-/

namespace Credence

/-- A second counted from the start of 1970 and the nanoseconds since it began. -/
structure Instant where
  second : Int
  nano : Nat
deriving DecidableEq, Repr

namespace Instant

def epoch : Instant := ⟨0, 0⟩

def perSecond : Nat := 1000000000

/-- Lies in an inserted second. -/
def inLeapSecond (t : Instant) : Bool := perSecond ≤ t.nano

def before (a b : Instant) : Bool :=
  a.second < b.second || (a.second == b.second && a.nano < b.nano)

/-- The day counted from the start of 1970. -/
def day (t : Instant) : Int := t.second / 86400

def secondOfDay (t : Instant) : Nat := (t.second % 86400).toNat

/-- The nanoseconds from one instant to a later one, negative to an earlier one. A leap second
between two times of day counts where it was inserted. -/
def nanosSince (now observed : Instant) : Int :=
  let inserted : Int :=
    if observed.secondOfDay < now.secondOfDay then (if observed.inLeapSecond then 1 else 0)
    else if now.secondOfDay < observed.secondOfDay then (if now.inLeapSecond then -1 else 0)
    else 0
  (now.second - observed.second + inserted) * perSecond + ((now.nano : Int) - observed.nano)

end Instant

structure Span where
  nanos : Int
deriving DecidableEq, Repr

namespace Span

def between (observed now : Instant) : Span := ⟨now.nanosSince observed⟩

/-- Whole milliseconds; what is left of a millisecond is dropped on either side of zero. -/
def milliseconds (s : Span) : Int := s.nanos.tdiv 1000000

end Span
end Credence
