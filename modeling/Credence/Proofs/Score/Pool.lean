import Mathlib.Tactic.Ring
import Credence.Proofs.Scalar.Exact
import Credence.Score.Combination

/-! # Pooled masses

A source that joins a pool leaves masses that are rescaled to their total, or none where the total
is not positive. With exact scalars neither happens: the pool of some sources is that of a single
one whose score is the probability that at least one of them is right. So its total is one after
every source, and pooled belief is that probability.
-/

namespace Credence

namespace Pool
variable {R : Type} [Scalar R]

/-- The masses after one more source, rescaled, or none where their total is not positive. -/
def next? (m : Pool R) (p : R) : Option (Pool R) :=
  if (m.joined p).total ≤ 0 then none else some (m.joined p).rescaled

/-- Pooled belief is the belief after the last source, or zero where a source leaves no masses. -/
theorem beliefAfter_eq_elim (m : Pool R) (scores : List R) :
    m.beliefAfter scores = (scores.foldlM next? m).elim 0 belief := by
  induction scores generalizing m with
  | nil => rfl
  | cons p rest ih =>
    rw [beliefAfter, List.foldlM_cons, next?]
    split
    · rfl
    · exact ih _

end Pool

variable {K : Type} [Field K] [LinearOrder K]

theorem noisyOr_eq (scores : List K) :
    noisyOr scores = 1 - (scores.map (fun p => 1 - p)).prod :=
  congrArg (1 - ·) (Scalar.product_eq _)

theorem noisyOr_singleton (p : K) : noisyOr [p] = p := by
  rw [noisyOr_eq, List.map_singleton, List.prod_singleton, sub_sub_cancel]

theorem noisyOr_pair (q p : K) : noisyOr [q, p] = 1 - (1 - q) * (1 - p) := by
  rw [noisyOr_eq, List.map_cons, List.map_singleton, List.prod_cons, List.prod_singleton]

/-- What some scores make together stands for them beside others. -/
theorem noisyOr_cons_noisyOr (xs ys : List K) :
    noisyOr (noisyOr xs :: ys) = noisyOr (xs ++ ys) := by
  simp only [noisyOr_eq, List.map_cons, List.map_append, List.prod_cons, List.prod_append,
    sub_sub_cancel]

namespace Pool

theorem total_ofScore (p : K) : (ofScore p).total = 1 := add_sub_cancel p 1

theorem rescaled_of_total {m : Pool K} (whole : m.total = 1) : m.rescaled = m := by
  unfold rescaled
  rw [whole, div_one, div_one]

theorem joined_ofScore (q p : K) : (ofScore q).joined p = ofScore (noisyOr [q, p]) := by
  have belief : q * p + q * (1 - p) + (1 - q) * p = 1 - (1 - q) * (1 - p) := by ring
  rw [noisyOr_pair, ofScore, ofScore, joined, belief, sub_sub_cancel]

variable [IsStrictOrderedRing K]

theorem next?_ofScore (q p : K) : (ofScore q).next? p = some (ofScore (noisyOr [q, p])) := by
  have whole := total_ofScore (noisyOr [q, p])
  have positive : ¬ (ofScore (noisyOr [q, p])).total ≤ 0 := by
    rw [whole]
    exact not_le.2 zero_lt_one
  rw [next?, joined_ofScore, if_neg positive, rescaled_of_total whole]

/-- The pool of some sources is that of a single one, and every source leaves some masses. -/
theorem foldlM_next? (first : K) (rest : List K) :
    rest.foldlM next? (ofScore first) = some (ofScore (noisyOr (first :: rest))) := by
  induction rest generalizing first with
  | nil =>
    rw [noisyOr_singleton]
    rfl
  | cons p rest ih =>
    rw [List.foldlM_cons, next?_ofScore]
    change rest.foldlM next? (ofScore (noisyOr [first, p])) = _
    rw [ih, noisyOr_cons_noisyOr]
    rfl

end Pool

variable [IsStrictOrderedRing K]

/-- Pooled belief is the probability that at least one source is right. -/
theorem dempsterShafer_eq (scores : List K) : dempsterShafer scores = noisyOr scores := by
  cases scores with
  | nil => simp [noisyOr_eq, dempsterShafer]
  | cons first rest =>
    rw [dempsterShafer, Pool.beliefAfter_eq_elim, Pool.foldlM_next?]
    rfl

end Credence
