import Credence.Decimal.Binary

/-! # The fewest digits that read back

On the grid of the multiples of a power of ten only the two neighbours of a number can be the
nearest point. The search goes from the coarsest grid to finer ones and takes the first with a
neighbour that rounds to the number. Of two such neighbours the nearer is taken, and a number
halfway between them goes the way the caller says.
-/

namespace Credence.Decimal

/-- The number `digits * 10 ^ exponent`. -/
structure Digits where
  digits : Nat
  exponent : Int
deriving DecidableEq, Repr

/-- Which of two equally near neighbours is taken. -/
inductive Tie where
  | toEven
  | up
deriving DecidableEq, Repr

/-- The neighbours of a number on the grid of the multiples of `10 ^ p`: the one that is chosen,
if either rounds to the number. -/
def onGrid? (tie : Tie) (b : Binary) (p : Int) : Option Nat :=
  let (up, down) := scale (b.exponent - 2) p
  let value := 4 * b.significand * up
  let low := (4 * b.significand - if b.narrowBelow then 1 else 2) * up
  let high := (4 * b.significand + 2) * up
  let within (c : Nat) : Bool :=
    if b.significand % 2 = 0 then low ≤ c * down && c * down ≤ high
    else low < c * down && c * down < high
  let below := value / down
  let rest := value % down
  match within below, within (below + 1) with
  | true, true =>
    if 2 * rest < down then some below
    else if down < 2 * rest then some (below + 1)
    else match tie with
      | .toEven => some (if below % 2 = 0 then below else below + 1)
      | .up => some (below + 1)
  | true, false => some below
  | false, true => some (below + 1)
  | false, false => none

def searchGrids (tie : Tie) (b : Binary) : Nat → Int → Digits
  | 0, p => ⟨b.significand, p⟩
  | fuel + 1, p =>
    match onGrid? tie b p with
    | some c => if c = 0 then searchGrids tie b fuel (p - 1) else ⟨c, p⟩
    | none => searchGrids tie b fuel (p - 1)

def trimZeros : Nat → Digits → Digits
  | 0, d => d
  | fuel + 1, d =>
    if d.digits ≠ 0 ∧ d.digits % 10 = 0 then trimZeros fuel ⟨d.digits / 10, d.exponent + 1⟩ else d

/-- A power of ten above a number, and above it by less than three decimal places. -/
def startingGrid (b : Binary) : Int :=
  ((Nat.log2 b.significand + 1 : Nat) + b.exponent) * 30103 / 100000 + 1

/-- The fewest digits that read back as the number, and of those the nearest to it. -/
def shortest (tie : Tie) (b : Binary) : Digits :=
  if b.significand = 0 then ⟨0, 0⟩
  else trimZeros 400 (searchGrids tie b 25 (startingGrid b))

end Credence.Decimal
