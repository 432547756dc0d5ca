import Credence.Assertion.Basic
import Credence.Opinion.Fusion
import Credence.Opinion.Reasoning

/-! # Scores as opinions

A score becomes an opinion when some mass is left uncertain, and an opinion becomes a score when
it is projected. Sources are combined by fusing their opinions, and a chain of trust is followed
by discounting the opinion at its end by one edge after the other, the nearest first.
-/

namespace Credence.Opinion
variable {R : Type} [Scalar R]

def ofSources (scores : List R) (uncertainty : R) (kind : Fusion) (baseRate : R) :
    Except (Error R) (Opinion R) := do
  if scores.isEmpty then throw (.validation (.emptyInput .scoresToCombine))
  let opinions ← scores.mapM (fun score => ofConfidence score uncertainty baseRate)
  kind.fuse opinions

/-- The opinion at the end of a chain, seen through the edges before it. -/
def ofChain (chain : List R) (uncertainty baseRate : R) : Except (Error R) (Opinion R) :=
  match chain.reverse with
  | [] => .error (.validation (.emptyInput .evidenceChain))
  | subject :: edges => do
    let start ← ofConfidence subject uncertainty baseRate
    edges.foldlM (fun result edge => do
      let trust ← ofConfidence edge uncertainty baseRate
      discount trust result) start

def ofAssertion (a : Assertion R) (uncertainty : R) : Except (Error R) (Opinion R) := do
  validated a.validate
  ofConfidence a.confidenceOrDefault uncertainty defaultBaseRate

end Credence.Opinion
