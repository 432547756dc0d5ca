import Credence.Decimal.Power

/-! # What a double-precision word stands for

A finite word of 64 bits is a sign, a whole significand and a power of two. The numbers that
round to it fill an interval around it, whose ends belong to it exactly when the significand is
even. Below a power of two the gap to the next number is half as wide.
-/

namespace Credence.Decimal

/-- The magnitude `significand * 2 ^ exponent`, and whether the gap below it is the narrow one. -/
structure Binary where
  significand : Nat
  exponent : Int
  narrowBelow : Bool
deriving DecidableEq, Repr

inductive Decoded where
  | undefined
  | infinite (negative : Bool)
  | finite (negative : Bool) (magnitude : Binary)

/-- Reads the sign, the eleven bits of the exponent and the fifty-two of the significand. -/
def decode (bits : Nat) : Decoded :=
  let negative := bits / twoTo 63 % 2 == 1
  let biased : Nat := bits / twoTo 52 % twoTo 11
  let fraction : Nat := bits % twoTo 52
  if biased = twoTo 11 - 1 then
    if fraction = 0 then .infinite negative else .undefined
  else if biased = 0 then .finite negative ⟨fraction, -1074, false⟩
  else .finite negative ⟨twoTo 52 + fraction, (biased : Int) - 1075, fraction = 0 && 1 < biased⟩

/-- The two factors that turn `n * 2 ^ q / 10 ^ p` into a quotient of natural numbers. -/
def scale (q p : Int) : Nat × Nat :=
  (twoTo q.toNat * tenTo (-p).toNat, twoTo (-q).toNat * tenTo p.toNat)

end Credence.Decimal
