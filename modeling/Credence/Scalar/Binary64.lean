import Credence.Decimal.Layout
import Credence.Scalar

/-! # Double-precision scalars

Zero of either sign is one number for the order, and negative zero ranks below zero. An undefined
value is neither below nor above any other, and ranks above them all.
-/

namespace Credence.Binary64

/-- A key that ranks words by sign and magnitude. -/
def rankKey (bits : UInt64) : Int :=
  let n := bits.toNat
  if n < Decimal.twoTo 63 then n else (Decimal.twoTo 63 : Int) - 1 - n

instance : Scalar Float where
  zero := 0.0
  one := 1.0
  natCast n := Float.ofScientific n false 0
  intCast n := match n with
    | .ofNat k => Float.ofScientific k false 0
    | .negSucc k => -Float.ofScientific (k + 1) false 0
  decidableLE := inferInstance
  decidableLT := inferInstance
  isFinite := Float.isFinite
  rank a b := compare (rankKey a.toBits) (rankKey b.toBits)

instance : Elementary Float where
  exp := Float.exp
  log := Float.log
  exp2 := Float.exp2
  sqrt := Float.sqrt
  pow := Float.pow

instance : NumberText Float where
  document x := Decimal.Layout.document.write x.toBits.toNat
  plain x := Decimal.Layout.sentence.write x.toBits.toNat
  places n x := Decimal.writePlaces n x.toBits.toNat
  ofDigits digits exponent := Float.ofScientific digits (exponent < 0) exponent.natAbs

end Credence.Binary64
