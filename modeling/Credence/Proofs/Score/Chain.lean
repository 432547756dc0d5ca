import Mathlib.Algebra.Order.Field.Basic
import Mathlib.Tactic.NormNum
import Mathlib.Tactic.Ring
import Credence.Proofs.Opinion.Trust
import Credence.Proofs.Scalar.Real
import Credence.Proofs.Score.Propagation
import Credence.Score.Evidence

/-! # Chains of trust

At the end of a chain only that mass is certain which every step leaves certain. The scores of the
edges multiply what of it is left, and the score of the subject shares it out into belief and
disbelief. Where every step is certain, belief is the product of all scores.
-/

namespace Credence.Opinion
open Scalar (InUnit)
variable {K : Type} [Field K] [LinearOrder K] {u a : K}

/-- The opinion of a subject that is seen through some edges, each with the same uncertainty. -/
structure ThroughEdges (u a : K) (edges : List K) (subject : K) (o : Opinion K) : Prop where
  belief : o.belief = (1 - u) ^ (edges.length + 1) * (edges.prod * subject)
  disbelief : o.disbelief = (1 - u) ^ (edges.length + 1) * (edges.prod * (1 - subject))
  baseRate : o.baseRate = a
  whole : Whole o

variable [IsStrictOrderedRing K]

theorem exists_throughEdges_nil {subject : K} (unit : InUnit subject) (hu : InUnit u)
    (ha : InUnit a) :
    ∃ o, ofConfidence subject u a = .ok o ∧ ThroughEdges u a [] subject o := by
  obtain ⟨o, made, whole⟩ := exists_ofConfidence unit hu ha
  obtain ⟨belief, disbelief, -, baseRate⟩ := components_of_ofConfidence unit hu ha made
  refine ⟨o, made, ?_, ?_, baseRate, whole⟩
  · rw [belief, List.length_nil, List.prod_nil]
    ring
  · rw [disbelief, List.length_nil, List.prod_nil]
    ring

theorem ThroughEdges.exists_cons {edges : List K} {subject edge : K} {x : Opinion K}
    (h : ThroughEdges u a edges subject x) (unit : InUnit edge) (hu : InUnit u) (ha : InUnit a) :
    ∃ o, (ofConfidence edge u a >>= fun trust => discount trust x) = .ok o ∧
      ThroughEdges u a (edge :: edges) subject o := by
  obtain ⟨trust, held, ht⟩ := exists_ofConfidence unit hu ha
  obtain ⟨o, made, whole⟩ := exists_discount ht h.whole
  obtain ⟨belief, disbelief, baseRate⟩ := components_of_discount made
  have trusted := (components_of_ofConfidence unit hu ha held).1
  refine ⟨o, bind_eq_ok_iff.2 ⟨trust, held, made⟩, ?_, ?_, baseRate.trans h.baseRate, whole⟩
  · rw [belief, trusted, h.belief, List.length_cons, List.prod_cons]
    ring
  · rw [disbelief, trusted, h.disbelief, List.length_cons, List.prod_cons]
    ring

theorem ThroughEdges.exists_foldlM {edges nearest : List K} {subject : K} {x : Opinion K}
    (h : ThroughEdges u a edges subject x) (units : ∀ e ∈ nearest, InUnit e) (hu : InUnit u)
    (ha : InUnit a) :
    ∃ o, nearest.foldlM (fun result edge => do
        let trust ← ofConfidence edge u a
        discount trust result) x = .ok o ∧
      ThroughEdges u a (nearest.reverse ++ edges) subject o := by
  induction nearest generalizing edges x with
  | nil => exact ⟨x, rfl, h⟩
  | cons edge rest ih =>
    obtain ⟨unit, units⟩ := List.forall_mem_cons.1 units
    obtain ⟨next, made, hnext⟩ := h.exists_cons unit hu ha
    obtain ⟨o, run, ho⟩ := ih hnext units
    rw [List.reverse_cons, List.append_assoc, List.singleton_append]
    exact ⟨o, List.foldlM_cons.trans (bind_eq_ok_iff.2 ⟨next, made, run⟩), ho⟩

/-- A chain of scores leads to the opinion of its last step, seen through the steps before it. -/
theorem exists_throughEdges {chain : List K} (some : chain ≠ []) (units : ∀ s ∈ chain, InUnit s)
    (hu : InUnit u) (ha : InUnit a) :
    ∃ o, ofChain chain u a = .ok o ∧
      ThroughEdges u a chain.dropLast (chain.getLast some) o := by
  obtain ⟨start, made, hs⟩ := exists_throughEdges_nil (units _ (List.getLast_mem some)) hu ha
  have backwards : ∀ e ∈ chain.dropLast.reverse, InUnit e :=
    fun e he => units e (List.mem_of_mem_dropLast (List.mem_reverse.1 he))
  obtain ⟨o, run, ho⟩ := hs.exists_foldlM backwards hu ha
  rw [List.reverse_reverse, List.append_nil] at ho
  refine ⟨o, ?_, ho⟩
  have order : chain.reverse = chain.getLast some :: chain.dropLast.reverse := by
    conv_lhs => rw [← List.dropLast_append_getLast some, List.reverse_concat]
  rw [ofChain, order]
  exact bind_eq_ok_iff.2 ⟨start, made, run⟩

/-- The opinion at the end of a chain, in closed form. Where nothing is uncertain and the base rate
is zero, it projects to the score that the product of the chain is. -/
theorem chain_closed_form [Elementary K] {chain : List K} (some : chain ≠ [])
    (units : ∀ s ∈ chain, InUnit s) (hu : InUnit u) (ha : InUnit a) :
    ∃ o, ofChain chain u a = .ok o ∧
      o.belief = (1 - u) ^ chain.length * chain.prod ∧
      o.disbelief =
        (1 - u) ^ chain.length * (chain.dropLast.prod * (1 - chain.getLast some)) ∧
      o.uncertainty = 1 - o.belief - o.disbelief ∧ o.baseRate = a ∧
      (u = 0 → a = 0 →
        ∃ result, propagate chain .multiply = .ok result ∧ o.projected = result.score) := by
  have parts := List.dropLast_append_getLast some
  obtain ⟨o, made, h⟩ := exists_throughEdges some units hu ha
  have steps : chain.length = chain.dropLast.length + 1 := by
    conv_lhs => rw [← parts, List.length_append, List.length_singleton]
  have product : chain.prod = chain.dropLast.prod * chain.getLast some := by
    conv_lhs => rw [← parts, List.prod_append, List.prod_singleton]
  have belief : o.belief = (1 - u) ^ chain.length * chain.prod := by rw [h.belief, steps, product]
  refine ⟨o, made, belief, steps ▸ h.disbelief, ?_, h.baseRate, ?_⟩
  · rw [← h.whole]
    ring
  · rintro rfl rfl
    obtain ⟨result, propagated⟩ := exists_propagate_iff.2 ⟨some, units⟩
    refine ⟨result, propagated, ?_⟩
    rw [score_of_multiply propagated, projected, belief, h.baseRate]
    simp

theorem chain_closed_form_certain :
    ∃ o : Opinion ℝ, ofChain [9 / 10, 19 / 20, 4 / 5] 0 0 = .ok o ∧ o.belief = 171 / 250 ∧
      ∃ result, propagate [9 / 10, 19 / 20, 4 / 5] .multiply = .ok result ∧
        o.projected = result.score := by
  have units : ∀ s ∈ [9 / 10, 19 / 20, (4 / 5 : ℝ)], InUnit s := by
    simp only [List.forall_mem_cons, Scalar.inUnit_iff]
    norm_num
  have zero : InUnit (0 : ℝ) := ⟨le_rfl, zero_le_one⟩
  obtain ⟨o, made, belief, -, -, -, agree⟩ :=
    chain_closed_form (List.cons_ne_nil _ _) units zero zero
  refine ⟨o, made, belief.trans ?_, agree rfl rfl⟩
  norm_num

end Credence.Opinion
