import Credence.Proofs.Scalar.Greatest
import Credence.Proofs.Score.Combination

/-! # Scores are ordered

A contest compares scores and combines them. What it asks of them holds of exact scores, and of
those of double precision as well: it asks no exact arithmetic.
-/

namespace Credence
open Scalar (InUnit clampUnit)

/-- What a contest asks of scores: one half is one, they are ranked by their order, and what some of
them combine to is one, the noisy or of them without being clamped. -/
class OrderedScores (R : Type) [Scalar R] : Prop extends ScoresCombine R where
  ranks : Ranks InUnit (fun a b : R => a ≤ b) (fun a b => decide (b < a))
  clampUnit_noisyOr : ∀ {scores : List R}, (∀ s ∈ scores, InUnit s) →
    clampUnit (noisyOr scores) = noisyOr scores

namespace OrderedScores
variable {R : Type} [Scalar R] [OrderedScores R] {scores : List R}

theorem combine_noisyOr (present : scores ≠ []) (units : ∀ s ∈ scores, InUnit s) :
    combine scores .noisyOr = .ok ⟨noisyOr scores, .noisyOr, scores⟩ :=
  combine_eq_ok_iff.2
    ⟨present, units, by rw [Combination.raw, clampUnit_noisyOr units]⟩

theorem inUnit_noisyOr (present : scores ≠ []) (units : ∀ s ∈ scores, InUnit s) :
    InUnit (noisyOr scores) :=
  toScoresCombine.combined _ _ _ (combine_noisyOr present units)

end OrderedScores

instance orderedScores {K : Type} [Field K] [LinearOrder K] [IsStrictOrderedRing K] :
    OrderedScores K where
  toScoresCombine := scoresCombine
  ranks := ⟨fun _ _ _ => le_trans, fun _ _ => le_total _ _, fun _ _ => by simp⟩
  clampUnit_noisyOr units := Scalar.clampUnit_of_inUnit (noisyOr_inUnit units)

end Credence
