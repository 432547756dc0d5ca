import Mathlib.Algebra.Order.Field.Basic
import Credence.Proofs.Scalar.Exact
import Credence.Proofs.Traversal
import Credence.Score.Propagation

/-! # Propagated scores

A chain propagates exactly where it has a step and all its steps are scores, and is refused for a
value otherwise. With exact scalars a product of scores is a score, so that it need not be kept
within bounds.
-/

namespace Credence

section
variable {R : Type} [Scalar R] [Elementary R]

theorem propagate_eq_ok_iff {chain : List R} {method : Propagation} {result : PropagationResult R} :
    propagate chain method = .ok result ↔
      chain ≠ [] ∧ (∀ s ∈ chain, Scalar.InUnit s) ∧
        result = ⟨Scalar.clampUnit (method.raw chain), method, chain, []⟩ := checked_eq_ok_iff

theorem exists_propagate_iff {chain : List R} {method : Propagation} :
    (∃ result, propagate chain method = .ok result) ↔
      chain ≠ [] ∧ ∀ s ∈ chain, Scalar.InUnit s := by
  simp only [propagate_eq_ok_iff, exists_and_left, exists_eq, and_true]

theorem propagate_validates (chain : List R) (method : Propagation) :
    Validates (propagate chain method) := by
  unfold propagate
  cases chain with
  | nil => exact .throw _
  | cons s rest => exact (Validates.validated _).bind (fun _ => .ok _)

end

variable {K : Type} [Field K] [LinearOrder K] [Elementary K] {chain : List K}

/-- What is a score already is not clamped. -/
theorem propagate_eq_raw {method : Propagation} (present : chain ≠ [])
    (units : ∀ s ∈ chain, Scalar.InUnit s) (unit : Scalar.InUnit (method.raw chain)) :
    propagate chain method = .ok ⟨method.raw chain, method, chain, []⟩ :=
  propagate_eq_ok_iff.2 ⟨present, units, by rw [Scalar.clampUnit_of_inUnit unit]⟩

theorem score_of_multiply [IsStrictOrderedRing K] {result : PropagationResult K}
    (h : propagate chain .multiply = .ok result) : result.score = chain.prod := by
  obtain ⟨-, units, rfl⟩ := propagate_eq_ok_iff.1 h
  change Scalar.clampUnit (Scalar.product chain) = chain.prod
  rw [Scalar.product_eq, Scalar.clampUnit_of_inUnit (Scalar.inUnit_prod units)]

end Credence
