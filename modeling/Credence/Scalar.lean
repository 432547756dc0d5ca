/-! # Scalars

Scores, masses and times are numbers of one type `R`. The library asks of it arithmetic, a
decidable order, and two answers that tell floating-point numbers from exact ones: whether a value
is finite, and how two values rank when zeros of both signs and undefined values count too. The
elementary functions and the written forms of numbers are asked for only where they are used.

Sums and products run from left to right. A sum starts from negative zero, the one number that
leaves every other as it is when added to it.
-/

namespace Credence

/-- Numbers that scores, masses and times are made of. -/
class Scalar (R : Type) extends
    Add R, Sub R, Mul R, Div R, Neg R, Zero R, One R, NatCast R, IntCast R, LE R, LT R, BEq R where
  decidableLE : DecidableRel (fun a b : R => a ≤ b)
  decidableLT : DecidableRel (fun a b : R => a < b)
  /-- Neither infinite nor undefined. -/
  isFinite : R → Bool
  /-- A total order that agrees with `<` and also ranks what `<` leaves open. -/
  rank : R → R → Ordering

/-- The elementary functions that curves and odds are made of. -/
class Elementary (R : Type) where
  exp : R → R
  log : R → R
  exp2 : R → R
  sqrt : R → R
  pow : R → R → R

/-- How numbers are written and read. -/
class NumberText (R : Type) where
  /-- The text of a number inside a document. -/
  document : R → String
  /-- The text of a number inside a sentence. -/
  plain : R → String
  /-- The text of a number rounded to a count of decimal places. -/
  places : Nat → R → String
  /-- The number nearest to some digits times a power of ten. -/
  ofDigits : Nat → Int → R

namespace Scalar
variable {R : Type} [Scalar R]

instance (a b : R) : Decidable (a ≤ b) := Scalar.decidableLE a b

instance (a b : R) : Decidable (a < b) := Scalar.decidableLT a b

/-- Negative zero, where sums start. -/
def sumStart : R := -0

def sum (values : List R) : R := values.foldl (· + ·) sumStart

def product (values : List R) : R := values.foldl (· * ·) 1

def mean (values : List R) : R := sum values / (values.length : R)

def clamp (low high value : R) : R :=
  let raised := if value < low then low else value
  if high < raised then high else raised

def clampUnit (value : R) : R := clamp 0 1 value

/-- The larger value; the first one where neither is larger. -/
def larger (a b : R) : R := if a < b then b else a

def smaller (a b : R) : R := if b < a then b else a

/-- The value, or zero where it is below zero or undefined. -/
def notBelowZero (value : R) : R := if 0 < value then value else 0

def abs (value : R) : R := if value < 0 then -value else value

/-- Lies between zero and one, both included. An undefined value does not. -/
def InUnit (value : R) : Prop := 0 ≤ value ∧ value ≤ 1

instance (value : R) : Decidable (InUnit value) := inferInstanceAs (Decidable (_ ∧ _))

def oneOver (n : Nat) : R := 1 / (n : R)

/-- Two to the power minus 52, the gap between one and the next number of double precision. -/
def epsilon : R := oneOver 4503599627370496

end Scalar
end Credence
