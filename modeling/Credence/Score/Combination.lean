import Credence.Score.Basic
import Credence.Vocabulary

/-! # Combination of independent sources

The score of a fact that several sources assert, from the scores of the sources.
-/

namespace Credence
variable {R : Type} [Scalar R]

/-- How the scores of independent sources make one. -/
inductive Combination where
  | noisyOr
  | average
  | max
  | dempsterShafer
deriving DecidableEq, Repr

namespace Combination

def name : Combination → String
  | .noisyOr => "noisy_or"
  | .average => "average"
  | .max => "max"
  | .dempsterShafer => "dempster_shafer"

instance : Named Combination where
  kind := "combination method"
  all := [.noisyOr, .average, .max, .dempsterShafer]
  name := Combination.name
  listing := Named.blankListing ["noisy_or", "average", "max", "dempster_shafer"]

instance : Inhabited Combination := ⟨.noisyOr⟩

end Combination

/-- The probability that at least one source is right. -/
def noisyOr (scores : List R) : R := 1 - Scalar.product (scores.map (fun p => 1 - p))

/-- The largest score, or zero. -/
def largest (scores : List R) : R := scores.foldl Scalar.larger 0

/-- A mass of belief beside a mass of uncertainty. -/
structure Pool (R : Type) where
  belief : R
  uncertainty : R

namespace Pool

def ofScore (p : R) : Pool R := ⟨p, 1 - p⟩

/-- The masses after one more source, not rescaled. -/
def joined (m : Pool R) (p : R) : Pool R :=
  ⟨m.belief * p + m.belief * (1 - p) + m.uncertainty * p, m.uncertainty * (1 - p)⟩

def total (m : Pool R) : R := m.belief + m.uncertainty

def rescaled (m : Pool R) : Pool R := ⟨m.belief / m.total, m.uncertainty / m.total⟩

/-- The belief after all further sources, rescaled after each. A total that is not positive leaves
no belief. -/
def beliefAfter (m : Pool R) : List R → R
  | [] => m.belief
  | p :: rest =>
    let next := m.joined p
    if next.total ≤ 0 then 0 else beliefAfter next.rescaled rest

end Pool

/-- The belief that sources without disbelief pool. -/
def dempsterShafer : List R → R
  | [] => 0
  | first :: rest => (Pool.ofScore first).beliefAfter rest

def Combination.raw (method : Combination) (scores : List R) : R :=
  match method with
  | .noisyOr => Credence.noisyOr scores
  | .average => Scalar.mean scores
  | .max => largest scores
  | .dempsterShafer => Credence.dempsterShafer scores

structure CombinationResult (R : Type) where
  score : R
  method : Combination
  inputScores : List R

def combine (scores : List R) (method : Combination) : Except (Error R) (CombinationResult R) := do
  if scores.isEmpty then throw (.validation (.emptyInput .sourceScores))
  validated (scores.forM (checkScore .sourceScore))
  return ⟨Scalar.clampUnit (method.raw scores), method, scores⟩

end Credence
