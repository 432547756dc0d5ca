import Credence.Score.Basic

/-! # Opinions

An opinion splits one unit of mass into belief, disbelief and uncertainty, and its base rate says
how the uncertain mass counts when the opinion is projected to one probability. Every opinion is
made by `Opinion.make`, which refuses components outside the unit interval and masses whose sum
is further than the tolerance from one; so every value of the type is one that it accepts.
-/

namespace Credence
variable {R : Type} [Scalar R]

namespace Opinion

/-- How far the sum of the masses may be from one. -/
def tolerance : R := Scalar.oneOver 1000000000

/-- What a component lacks, if it is not a finite number of the unit interval. -/
def componentFault? (component : Component) (value : R) : Option (OpinionFault R) :=
  if !Scalar.isFinite value then some (.notFinite component)
  else if Scalar.InUnit value then none
  else some (.outside component value)

def sumFault? (belief disbelief uncertainty : R) : Option (OpinionFault R) :=
  let sum := belief + disbelief + uncertainty
  if tolerance < Scalar.abs (sum - 1) then some (.badSum sum) else none

/-- The first thing that four numbers lack to be an opinion. -/
def fault? (belief disbelief uncertainty baseRate : R) : Option (OpinionFault R) :=
  componentFault? .belief belief <|> componentFault? .disbelief disbelief <|>
    componentFault? .uncertainty uncertainty <|> componentFault? .baseRate baseRate <|>
    sumFault? belief disbelief uncertainty

end Opinion

/-- Belief, disbelief and uncertainty, which share one unit of mass, and a base rate. -/
@[ext] structure Opinion (R : Type) [Scalar R] where
  belief : R
  disbelief : R
  uncertainty : R
  baseRate : R
  faultless : Opinion.fault? belief disbelief uncertainty baseRate = none

namespace Opinion

def defaultBaseRate : R := Scalar.oneOver 2

def defaultPriorWeight : R := ((2 : Nat) : R)

def accept (belief disbelief uncertainty baseRate : R) : Except (OpinionError R) (Opinion R) :=
  match h : fault? belief disbelief uncertainty baseRate with
  | none => .ok ⟨belief, disbelief, uncertainty, baseRate, h⟩
  | some fault => .error ⟨belief, disbelief, uncertainty, baseRate, fault⟩

def make (belief disbelief uncertainty baseRate : R) : Except (Error R) (Opinion R) :=
  (accept belief disbelief uncertainty baseRate).mapError .opinion

theorem make_eq_ok {b d u a : R} (h : fault? b d u a = none) :
    make b d u a = .ok ⟨b, d, u, a, h⟩ := by
  unfold make accept
  split
  · rfl
  · next fault hf => simp [h] at hf

theorem make_eq_error {b d u a : R} {fault : OpinionFault R} (h : fault? b d u a = some fault) :
    make b d u a = .error (.opinion ⟨b, d, u, a, fault⟩) := by
  unfold make accept
  split
  · next hf => simp [h] at hf
  · next other hf =>
    obtain rfl : fault = other := Option.some.inj (h.symm.trans hf)
    rfl

/-- Brings a finite number into the unit interval. -/
def settled (value : R) : R := if Scalar.isFinite value then Scalar.clampUnit value else value

/-- The opinion with four components that rounding may have pushed out of the unit interval. -/
def settle (belief disbelief uncertainty baseRate : R) : Except (Error R) (Opinion R) :=
  make (settled belief) (settled disbelief) (settled uncertainty) (settled baseRate)

/-- A score whose source leaves some mass uncertain. -/
def ofConfidence (confidence uncertainty baseRate : R) : Except (Error R) (Opinion R) := do
  validated (checkScore .confidence confidence)
  validated (checkScore .uncertainty uncertainty)
  let mass := 1 - uncertainty
  settle (confidence * mass) ((1 - confidence) * mass) uncertainty baseRate

/-- Evidence for and against, counted beside a prior. -/
def ofEvidence (positive negative priorWeight baseRate : R) : Except (Error R) (Opinion R) :=
  if !Scalar.isFinite positive || !Scalar.isFinite negative || positive < 0 || negative < 0 then
    .error (.validation (.invalidEvidence positive negative))
  else if !Scalar.isFinite priorWeight || priorWeight ≤ 0 then
    .error (.validation (.invalidPriorWeight priorWeight))
  else
    let total := positive + negative + priorWeight
    settle (positive / total) (negative / total) (priorWeight / total) baseRate

/-- Total ignorance. -/
def vacuous (baseRate : R) : Except (Error R) (Opinion R) := make 0 0 1 baseRate

/-- A probability held without any uncertainty. -/
def dogmatic (probability baseRate : R) : Except (Error R) (Opinion R) := do
  validated (checkScore .probability probability)
  settle probability (1 - probability) 0 baseRate

def withBaseRate (o : Opinion R) (baseRate : R) : Except (Error R) (Opinion R) :=
  make o.belief o.disbelief o.uncertainty baseRate

/-- The probability that an opinion stands for, its uncertain mass counted by the base rate. -/
def projected (o : Opinion R) : R := o.belief + o.baseRate * o.uncertainty

/-- Leaves no mass uncertain, up to rounding. -/
def isDogmatic (o : Opinion R) : Bool := o.uncertainty ≤ Scalar.epsilon

def isVacuous (o : Opinion R) : Bool := 1 - Scalar.epsilon ≤ o.uncertainty

/-- How far an opinion contradicts itself. -/
def ambiguity (o : Opinion R) : R :=
  Scalar.notBelowZero (1 - Scalar.abs (o.belief - o.disbelief) - o.uncertainty)

/-- The opinion inside a sentence, each component with three places. -/
def display [NumberText R] (o : Opinion R) : String :=
  "ω(b=" ++ NumberText.places 3 o.belief ++ ", d=" ++ NumberText.places 3 o.disbelief ++
    ", u=" ++ NumberText.places 3 o.uncertainty ++ ", a=" ++ NumberText.places 3 o.baseRate ++ ")"

end Opinion
end Credence
