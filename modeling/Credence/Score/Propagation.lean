import Credence.Score.Basic
import Credence.Vocabulary

/-! # Propagation along a chain

The score of a chain of steps, from the scores of the steps.
-/

namespace Credence
variable {R : Type} [Scalar R]

/-- How the scores of a chain make one. -/
inductive Propagation where
  | multiply
  | min
  | average
  | bayesian
  | dampened
deriving DecidableEq, Repr

namespace Propagation

def name : Propagation → String
  | .multiply => "multiply"
  | .min => "min"
  | .average => "average"
  | .bayesian => "bayesian"
  | .dampened => "dampened"

instance : Named Propagation where
  kind := "propagation method"
  all := [.multiply, .min, .average, .bayesian, .dampened]
  name := Propagation.name
  listing := Named.blankListing ["multiply", "min", "average", "bayesian", "dampened"]

instance : Inhabited Propagation := ⟨.multiply⟩

end Propagation

/-- How far scores are kept away from zero and one before odds are taken. -/
def logOddsEpsilon : R := Scalar.oneOver 10000000000

def smallest : List R → R
  | [] => 1
  | first :: rest => rest.foldl Scalar.smaller first

section
variable [Elementary R]

/-- The logarithm of the odds of a score that is kept away from zero and one. -/
def logOdds (score : R) : R :=
  let kept := Scalar.clamp logOddsEpsilon (1 - logOddsEpsilon) score
  Elementary.log (kept / (1 - kept))

/-- The probability with given logarithmic odds. -/
def sigmoid (logOdds : R) : R := 1 / (1 + Elementary.exp (-logOdds))

/-- The product of a chain, raised to one over the square root of its length. -/
def dampenedProduct (chain : List R) : R :=
  let product := Scalar.product chain
  if product == 0 then 0
  else Elementary.pow product (1 / Elementary.sqrt (chain.length : R))

def Propagation.raw (method : Propagation) (chain : List R) : R :=
  match method with
  | .multiply => Scalar.product chain
  | .min => smallest chain
  | .average => Scalar.mean chain
  | .bayesian => sigmoid (Scalar.sum (chain.map logOdds))
  | .dampened => dampenedProduct chain

end

structure PropagationResult (R : Type) where
  score : R
  method : Propagation
  inputScores : List R
  /-- The names of the properties walked, if the scores were met on a walk. -/
  trail : List String

def propagate [Elementary R] (chain : List R) (method : Propagation) :
    Except (Error R) (PropagationResult R) := do
  if chain.isEmpty then throw (.validation (.emptyInput .confidenceChain))
  validated (chain.forM (checkScore .chainScore))
  return ⟨Scalar.clampUnit (method.raw chain), method, chain, []⟩

end Credence
