import Mathlib.Algebra.Order.Field.Basic
import Mathlib.Tactic.FieldSimp
import Mathlib.Tactic.NormNum
import Credence.Proofs.Scalar.Real
import Credence.Proofs.Score.Propagation

/-! # Odds along a chain

The logarithmic odds of the steps of a chain add up, so that their odds multiply, whatever the
length of the chain. Even odds change nothing, and what speaks for a fact speaks with the inverse
odds against it. Scores that are kept away from zero and one have odds that are positive, and so
has the chain: its score never reaches zero or one.
-/

namespace Credence
open Scalar (InUnit)
open Elementary (exp log)

section
variable {R : Type} [Scalar R]

def kept (score : R) : R := Scalar.clamp logOddsEpsilon (1 - logOddsEpsilon) score

/-- What speaks for a fact over what speaks against it. -/
def odds (p : R) : R := p / (1 - p)

theorem logOdds_eq [Elementary R] (score : R) : logOdds score = log (odds (kept score)) := rfl

end

variable {K : Type} [Field K] [LinearOrder K]

/-- The odds of a chain are the product of those of its steps. -/
def chainOdds (chain : List K) : K := (chain.map (fun s => odds (kept s))).prod

theorem chainOdds_perm {chain reordered : List K} (perm : chain.Perm reordered) :
    chainOdds reordered = chainOdds chain := ((perm.map _).prod_eq).symm

theorem odds_complement (p : K) : odds (1 - p) = (odds p)⁻¹ := by
  change (1 - p) / (1 - (1 - p)) = (p / (1 - p))⁻¹
  rw [sub_sub_cancel, inv_div]

theorem kept_eq (s : K) : kept s = min (1 - logOddsEpsilon) (max s logOddsEpsilon) :=
  Scalar.clamp_eq _ _ s

theorem kept_of_mem {s : K} (low : logOddsEpsilon ≤ s) (high : s ≤ 1 - logOddsEpsilon) :
    kept s = s := by
  rw [kept_eq, max_eq_left low, min_eq_right high]

variable [IsStrictOrderedRing K]

theorem logOddsEpsilon_pos : (0 : K) < logOddsEpsilon :=
  one_div_pos.2 (Nat.cast_pos.2 (by decide))

theorem logOddsEpsilon_lt_half : (logOddsEpsilon : K) < 1 / 2 := by
  change 1 / ((10000000000 : ℕ) : K) < 1 / 2
  norm_num

theorem kept_mem (s : K) : 0 < kept s ∧ kept s < 1 := by
  have low : (0 : K) < logOddsEpsilon := logOddsEpsilon_pos
  have high : (logOddsEpsilon : K) < 1 / 2 := logOddsEpsilon_lt_half
  rw [kept_eq]
  constructor
  · exact lt_min (by linarith) (low.trans_le (le_max_right s _))
  · exact (min_le_left _ _).trans_lt (by linarith)

/-- Both bounds of what is kept are equally far away from one half. -/
theorem kept_complement (s : K) : kept (1 - s) = 1 - kept s := by
  have ordered : (logOddsEpsilon : K) ≤ 1 - logOddsEpsilon := by
    linarith [logOddsEpsilon_lt_half (K := K)]
  calc
    kept (1 - s) =
        max (min (1 - logOddsEpsilon) (1 - s)) (min (1 - logOddsEpsilon) logOddsEpsilon) := by
      rw [kept_eq, min_max_distrib_left]
    _ = max (1 - (1 - logOddsEpsilon)) (1 - max s logOddsEpsilon) := by
      rw [min_eq_right ordered, sub_sub_cancel, max_comm, ← min_sub_sub_left, min_comm]
    _ = 1 - kept s := by
      rw [kept_eq, max_sub_sub_left]

theorem kept_half : kept (1 / 2 : K) = 1 / 2 := by
  have high : (logOddsEpsilon : K) < 1 / 2 := logOddsEpsilon_lt_half
  exact kept_of_mem high.le (by linarith)

theorem odds_pos {p : K} (some : 0 < p) (part : p < 1) : 0 < odds p :=
  div_pos some (sub_pos.2 part)

theorem odds_half : odds (1 / 2 : K) = 1 := by
  change (1 / 2 : K) / (1 - 1 / 2) = 1
  norm_num

theorem odds_kept_pos (chain : List K) : ∀ v ∈ chain.map (fun s => odds (kept s)), 0 < v :=
  List.forall_mem_map.2 (fun s _ => odds_pos (kept_mem s).1 (kept_mem s).2)

theorem chainOdds_pos (chain : List K) : 0 < chainOdds chain :=
  List.prod_pos (odds_kept_pos chain)

theorem chainOdds_half (before after : List K) :
    chainOdds (before ++ 1 / 2 :: after) = chainOdds (before ++ after) := by
  simp only [chainOdds, List.map_append, List.map_cons, List.prod_append, List.prod_cons,
    kept_half, odds_half, one_mul]

theorem chainOdds_complement (chain : List K) :
    chainOdds (chain.map (fun s => 1 - s)) = (chainOdds chain)⁻¹ := by
  simp only [chainOdds, List.map_map, List.prod_inv, Function.comp_def, kept_complement,
    odds_complement]

section
variable {o : K} (positive : 0 < o)
include positive

theorem div_one_add_mem : 0 < o / (1 + o) ∧ o / (1 + o) < 1 := by
  have sum : 0 < 1 + o := by linarith
  exact ⟨div_pos positive sum, (div_lt_one sum).2 (by linarith)⟩

theorem inv_div_one_add_inv : o⁻¹ / (1 + o⁻¹) = 1 - o / (1 + o) := by
  have sum : 1 + o ≠ 0 := by linarith
  field_simp
  ring

end

/-- The exponential undoes the logarithm, which turns products of positive numbers into sums. -/
structure Logarithmic (K : Type) [Field K] [LinearOrder K] [Elementary K] : Prop where
  exp_log : ∀ v : K, 0 < v → exp (log v) = v
  log_mul : ∀ v w : K, 0 < v → 0 < w → log (v * w) = log v + log w

theorem logarithmic_real : Logarithmic ℝ where
  exp_log _ := Real.exp_log
  log_mul _ _ hv hw := Real.log_mul hv.ne' hw.ne'

namespace Logarithmic
variable [Elementary K] (h : Logarithmic K)
include h

theorem log_one : log (1 : K) = 0 := by
  have twice := h.log_mul 1 1 one_pos one_pos
  rw [mul_one] at twice
  exact left_eq_add.1 twice

theorem log_inv {v : K} (positive : 0 < v) : log v⁻¹ = -log v := by
  have whole := h.log_mul v⁻¹ v (inv_pos.2 positive) positive
  rw [inv_mul_cancel₀ positive.ne', h.log_one] at whole
  exact eq_neg_of_add_eq_zero_left whole.symm

theorem sum_log {values : List K} (positive : ∀ v ∈ values, 0 < v) :
    (values.map log).sum = log values.prod := by
  induction values with
  | nil => exact h.log_one.symm
  | cons v rest ih =>
    obtain ⟨here, behind⟩ := List.forall_mem_cons.1 positive
    rw [List.map_cons, List.sum_cons, ih behind, List.prod_cons,
      h.log_mul v _ here (List.prod_pos behind)]

theorem sigmoid_log {o : K} (positive : 0 < o) : sigmoid (log o) = o / (1 + o) := by
  change 1 / (1 + exp (-log o)) = o / (1 + o)
  rw [← h.log_inv positive, h.exp_log _ (inv_pos.2 positive)]
  field_simp
  exact add_comm 1 o

/-- The logarithmic odds of the steps add up to those of the chain. -/
theorem bayesian_raw (chain : List K) :
    Propagation.bayesian.raw chain = chainOdds chain / (1 + chainOdds chain) := by
  have sum : (chain.map logOdds).sum = log (chainOdds chain) := by
    rw [chainOdds, ← h.sum_log (odds_kept_pos chain), List.map_map]
    exact congrArg List.sum (List.map_congr_left (fun s _ => logOdds_eq s))
  change sigmoid (Scalar.sum (chain.map logOdds)) = _
  rw [Scalar.sum_eq, sum, h.sigmoid_log (chainOdds_pos chain)]

theorem propagate_bayesian {chain : List K} (present : chain ≠ [])
    (units : ∀ s ∈ chain, InUnit s) :
    propagate chain .bayesian =
      .ok ⟨chainOdds chain / (1 + chainOdds chain), .bayesian, chain, []⟩ := by
  obtain ⟨some, part⟩ := div_one_add_mem (chainOdds_pos chain)
  rw [← h.bayesian_raw]
  refine propagate_eq_raw present units ?_
  rw [h.bayesian_raw]
  exact ⟨some.le, part.le⟩

end Logarithmic

/-- The score of a chain is the probability whose odds are the product of those of its steps, each
kept away from zero and one, and is neither zero nor one. So it does not depend on the order of
the steps, a step of one half changes nothing anywhere, and the score of the complements is its
complement. -/
theorem bayesian_multiplies_odds [Elementary K] (h : Logarithmic K) {chain : List K}
    (present : chain ≠ []) (units : ∀ s ∈ chain, InUnit s) :
    ∃ result, propagate chain .bayesian = .ok result ∧
      result.score = chainOdds chain / (1 + chainOdds chain) ∧
      0 < result.score ∧ result.score < 1 ∧
      (∀ reordered, chain.Perm reordered →
        ∃ result', propagate reordered .bayesian = .ok result' ∧ result'.score = result.score) ∧
      (∀ before after, chain = before ++ after →
        ∃ result', propagate (before ++ 1 / 2 :: after) .bayesian = .ok result' ∧
          result'.score = result.score) ∧
      ∃ result', propagate (chain.map (fun s => 1 - s)) .bayesian = .ok result' ∧
        result'.score = 1 - result.score := by
  have positive := chainOdds_pos chain
  obtain ⟨some, part⟩ := div_one_add_mem positive
  refine ⟨_, h.propagate_bayesian present units, rfl, some, part, ?_, ?_, ?_⟩
  · intro reordered perm
    have present' : reordered ≠ [] := fun none => present (List.Perm.eq_nil (none ▸ perm))
    have units' : ∀ s ∈ reordered, InUnit s := fun s hs => units s (perm.mem_iff.2 hs)
    exact ⟨_, h.propagate_bayesian present' units', by rw [chainOdds_perm perm]⟩
  · rintro before after rfl
    have half : InUnit (1 / 2 : K) := ⟨one_half_pos.le, one_half_lt_one.le⟩
    exact ⟨_, h.propagate_bayesian (by simp) (forall_mem_middle.2 ⟨half, units⟩),
      by rw [chainOdds_half]⟩
  · have units' : ∀ s ∈ chain.map (fun s => 1 - s), InUnit s :=
      List.forall_mem_map.2 (fun s hs => Scalar.inUnit_complement (units s hs))
    refine ⟨_, h.propagate_bayesian (by simpa using present) units', ?_⟩
    change chainOdds _ / (1 + chainOdds _) = _
    rw [chainOdds_complement, inv_div_one_add_inv positive]

theorem bayesian_multiplies_odds_fourfold :
    ∃ result, propagate [4 / 5, (4 / 5 : ℝ)] .bayesian = .ok result ∧ result.score = 16 / 17 ∧
      ∃ result', propagate [1 / 5, (1 / 5 : ℝ)] .bayesian = .ok result' ∧
        result'.score = 1 / 17 := by
  have units : ∀ s ∈ [4 / 5, (4 / 5 : ℝ)], InUnit s := by
    simp only [List.forall_mem_cons, Scalar.inUnit_iff]
    norm_num
  have inside : kept (4 / 5 : ℝ) = 4 / 5 := by
    apply kept_of_mem <;> norm_num [logOddsEpsilon, Scalar.oneOver]
  have product : chainOdds [4 / 5, (4 / 5 : ℝ)] = 16 := by
    norm_num [chainOdds, inside, odds]
  obtain ⟨result, made, score, -, -, -, -, result', made', complement⟩ :=
    bayesian_multiplies_odds logarithmic_real (List.cons_ne_nil _ _) units
  rw [product] at score
  have mirrored : [4 / 5, (4 / 5 : ℝ)].map (fun s => 1 - s) = [1 / 5, 1 / 5] := by norm_num
  rw [mirrored] at made'
  refine ⟨result, made, by rw [score]; norm_num, result', made', ?_⟩
  rw [complement, score]
  norm_num

end Credence
