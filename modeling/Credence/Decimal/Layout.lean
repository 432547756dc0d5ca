import Credence.Decimal.Shortest

/-! # Where the point and the exponent go

A layout says which decimal exponents are written out in full, how a whole number ends, and how
infinite and undefined numbers are called. The digits themselves do not depend on it.
-/

namespace Credence.Decimal

/-- The decisions of one way of writing numbers. -/
structure Layout where
  tie : Tie
  /-- Written out in full, by the exponent of the first digit. -/
  positional : Int → Bool
  /-- What follows the digits of a whole number written out in full. -/
  wholeEnd : String
  undefined : String
  infinite : String

def zeros (n : Nat) : String := String.ofList (List.replicate n '0')

def Digits.positional (d : Digits) (wholeEnd : String) : String :=
  let text := toString d.digits
  if 0 ≤ d.exponent then text ++ zeros d.exponent.toNat ++ wholeEnd
  else
    let places := (-d.exponent).toNat
    let padded := (zeros (places + 1 - text.length) ++ text).toList
    String.ofList (padded.take (padded.length - places)) ++ "." ++
      String.ofList (padded.drop (padded.length - places))

/-- Digits with one before the point and the signed exponent after an e. -/
def Digits.scientific (d : Digits) (leading : Int) : String :=
  let text := (toString d.digits).toList
  let mantissa := match text with
    | [] => ""
    | [c] => String.ofList [c]
    | c :: rest => String.ofList (c :: '.' :: rest)
  mantissa ++ "e" ++ (if leading < 0 then "-" else "+") ++ toString leading.natAbs

def Layout.magnitude (layout : Layout) (b : Binary) : String :=
  let d := shortest layout.tie b
  let leading := d.exponent + ((toString d.digits).length : Int) - 1
  if layout.positional leading then d.positional layout.wholeEnd else d.scientific leading

def Layout.write (layout : Layout) (bits : Nat) : String :=
  match decode bits with
  | .undefined => layout.undefined
  | .infinite negative => (if negative then "-" else "") ++ layout.infinite
  | .finite negative b => (if negative then "-" else "") ++ layout.magnitude b

/-- In a document a number of magnitude below `10 ^ 16` and not below `10 ^ -5` is written out in
full, whole numbers with one zero after the point. -/
def Layout.document : Layout :=
  ⟨.toEven, fun e => -5 ≤ e && e ≤ 15, ".0", "null", "null"⟩

/-- In a sentence every number is written out in full, and a whole one has no point. -/
def Layout.sentence : Layout := ⟨.up, fun _ => true, "", "NaN", "inf"⟩

/-- A quotient rounded to the nearest whole number, a half to the even one. -/
def roundHalfEven (num den : Nat) : Nat :=
  let below := num / den
  let rest := num % den
  if 2 * rest < den then below
  else if den < 2 * rest then below + 1
  else if below % 2 = 0 then below else below + 1

def writePlaces (places : Nat) (bits : Nat) : String :=
  match decode bits with
  | .undefined => "NaN"
  | .infinite negative => (if negative then "-" else "") ++ "inf"
  | .finite negative b =>
    let (up, down) := scale b.exponent (-places)
    let rounded : Digits := ⟨roundHalfEven (b.significand * up) down, -places⟩
    (if negative then "-" else "") ++ rounded.positional ""

end Credence.Decimal
