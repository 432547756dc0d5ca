import Credence.Instant.Basic
import Credence.Opinion.Basic
import Credence.Vocabulary

/-! # Decay

Belief and disbelief lose weight with age and the mass they lose becomes uncertain; the base rate
stays. A curve says which part is left after a time that is measured against a half-life. Any
curve can be used as long as the parts it gives lie in the unit interval.
-/

namespace Credence
variable {R : Type} [Scalar R]

inductive DecayCurve where
  | exponential
  | linear
  | step
deriving DecidableEq, Repr

namespace DecayCurve

def name : DecayCurve → String
  | .exponential => "exponential"
  | .linear => "linear"
  | .step => "step"

instance : Named DecayCurve where
  kind := "decay function"
  all := [.exponential, .linear, .step]
  name := DecayCurve.name
  listing := Named.commaListing ["exponential", "linear", "step"]

instance : Inhabited DecayCurve := ⟨.exponential⟩

/-- The part left after a time: half of it after each half-life, a straight fall to nothing at two
half-lives, or all of it until the half-life and nothing from then on. -/
def factor [Elementary R] (curve : DecayCurve) (elapsed halfLife : R) : R :=
  match curve with
  | .exponential => Elementary.exp2 (-elapsed / halfLife)
  | .linear => Scalar.notBelowZero (1 - elapsed / (((2 : Nat) : R) * halfLife))
  | .step => if elapsed < halfLife then 1 else 0

end DecayCurve

namespace Opinion

def fade (o : Opinion R) (factor : R) : Except (Error R) (Opinion R) :=
  let belief := o.belief * factor
  let disbelief := o.disbelief * factor
  make belief disbelief (Scalar.clampUnit (1 - belief - disbelief)) o.baseRate

def decay (o : Opinion R) (elapsed halfLife : R) (curve : R → R → R) :
    Except (Error R) (Opinion R) :=
  if !Scalar.isFinite elapsed || elapsed < 0 then .error (.validation (.invalidElapsed elapsed))
  else if !Scalar.isFinite halfLife || halfLife ≤ 0 then
    .error (.validation (.invalidHalfLife halfLife))
  else
    let factor := curve elapsed halfLife
    if Scalar.InUnit factor then o.fade factor
    else .error (.validation (.decayFactorOutOfRange factor))

end Opinion

/-- The seconds of a span, counted in whole milliseconds. -/
def Span.seconds (s : Span) : R := (s.milliseconds : R) / ((1000 : Nat) : R)

/-- An opinion observed at one instant as it stands at another. -/
def Opinion.decaySince (o : Opinion R) (observed now : Instant) (halfLife : Span)
    (curve : R → R → R) : Except (Error R) (Opinion R) :=
  o.decay (Span.between observed now).seconds halfLife.seconds curve

end Credence
