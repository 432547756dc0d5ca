import Mathlib.Algebra.Order.Field.Basic
import Credence.Score.Evidence
import Credence.Proofs.Opinion.Guarded
import Credence.Proofs.Score.Chain

/-! # Scores as opinions never fail

Scores make whole opinions, which can be fused in either way and seen through a chain of trust,
whatever their number. Neither divides by zero.
-/

namespace Credence.Opinion
open Guarded (number)
open Scalar (InUnit)
variable {K : Type} [Field K] [LinearOrder K] [IsStrictOrderedRing K] {u a : K}

theorem ofSources_eq {R : Type} [Scalar R] {scores : List R} (some : scores ≠ []) (u a : R)
    (kind : Fusion) : ofSources scores u kind a =
      (scores.mapM (fun score => ofConfidence score u a) >>= kind.fuse) := by
  simp [ofSources, some]

theorem exists_ofSources {scores : List K} (some : scores ≠ []) (units : ∀ s ∈ scores, InUnit s)
    (hu : InUnit u) (ha : InUnit a) (kind : Fusion) :
    ∃ o, ofSources scores u kind a = .ok o ∧ Bounded Scalar.epsilon o := by
  obtain ⟨opinions, made, each⟩ :=
    exists_mapM_related (fun s hs => exists_ofConfidence (units s hs) hu ha)
  have filled : opinions ≠ [] := by
    rintro rfl
    cases each
    exact some rfl
  have whole : ∀ o ∈ opinions, Whole o := by
    intro o ho
    obtain ⟨s, -, h⟩ := exists_mem_of_forall₂ each.flip ho
    exact h
  obtain ⟨o, fused, accounted⟩ := exists_fuse filled whole kind
  rw [ofSources_eq some]
  exact ⟨o, bind_eq_ok_iff.2 ⟨opinions, made, fused⟩, accounted.bounded⟩

/-- Scores can be fused as opinions exactly where there is one and all of them are scores, as is
what they leave uncertain. -/
theorem exists_ofSources_iff (ha : InUnit a) {scores : List K} {kind : Fusion} :
    (∃ o, ofSources scores u kind a = .ok o) ↔
      scores ≠ [] ∧ (∀ s ∈ scores, InUnit s) ∧ InUnit u := by
  constructor
  · rintro ⟨o, made⟩
    have some : scores ≠ [] := by
      rintro rfl
      cases made
    obtain ⟨opinions, each, -⟩ := bind_eq_ok_iff.1 ((ofSources_eq some u a kind).symm.trans made)
    have accepted : ∀ s ∈ scores, InUnit s ∧ InUnit u := fun s hs =>
      (exists_ofConfidence_iff ha).1 (exists_mapM_iff.1 ⟨opinions, each⟩ s hs)
    obtain ⟨s, hs⟩ := List.exists_mem_of_ne_nil scores some
    exact ⟨some, fun t ht => (accepted t ht).1, (accepted s hs).2⟩
  · rintro ⟨some, units, hu⟩
    obtain ⟨o, made, -⟩ := exists_ofSources some units hu ha kind
    exact ⟨o, made⟩

theorem ofSources_mirrors {scores : List K} (some : scores ≠ []) (u a : K) (kind : Fusion) :
    Mirrors guarded (ofSources scores u kind a)
      (ofSources (scores.map number) (number u) kind (number a)) := by
  rw [ofSources_eq some, ofSources_eq (by simpa using some)]
  exact (Mirrors.mapM (fun s => ofConfidence_mirrors s u a) scores).bind (fuse_mirrors kind)

theorem exists_ofChain {chain : List K} (some : chain ≠ []) (units : ∀ s ∈ chain, InUnit s)
    (hu : InUnit u) (ha : InUnit a) :
    ∃ o, ofChain chain u a = .ok o ∧ Bounded Scalar.epsilon o := by
  obtain ⟨o, made, h⟩ := exists_throughEdges some units hu ha
  exact ⟨o, made, Accounted.bounded (.inl h.whole)⟩

/-- A chain can be followed exactly where it has a step and all its steps are scores, as is what
they leave uncertain. -/
theorem exists_ofChain_iff (ha : InUnit a) {chain : List K} :
    (∃ o, ofChain chain u a = .ok o) ↔ chain ≠ [] ∧ (∀ s ∈ chain, InUnit s) ∧ InUnit u := by
  constructor
  · rintro ⟨o, made⟩
    rw [ofChain] at made
    split at made
    · cases made
    · next subject edges order =>
      obtain ⟨start, first, run⟩ := bind_eq_ok_iff.1 made
      obtain ⟨unit, hu⟩ := (exists_ofConfidence_iff ha).1 ⟨start, first⟩
      have accepted : ∀ edge ∈ edges, InUnit edge := by
        intro edge he
        obtain ⟨result, next, step⟩ := exists_step_of_foldlM run edge he
        obtain ⟨trust, held, -⟩ := bind_eq_ok_iff.1 step
        exact ((exists_ofConfidence_iff ha).1 ⟨trust, held⟩).1
      have units : ∀ s ∈ chain.reverse, InUnit s :=
        order ▸ List.forall_mem_cons.2 ⟨unit, accepted⟩
      have some : chain ≠ [] := by
        rintro rfl
        cases order
      exact ⟨some, fun s hs => units s (List.mem_reverse.2 hs), hu⟩
  · rintro ⟨some, units, hu⟩
    obtain ⟨o, made, -⟩ := exists_ofChain some units hu ha
    exact ⟨o, made⟩

theorem ofChain_mirrors (chain : List K) (u a : K) :
    Mirrors guarded (ofChain chain u a) (ofChain (chain.map number) (number u) (number a)) := by
  rw [ofChain, ofChain, ← List.map_reverse]
  cases chain.reverse with
  | nil =>
    intro o none
    cases none
  | cons subject edges =>
    refine (ofConfidence_mirrors subject u a).bind (Mirrors.foldlM (fun x edge => ?_) edges)
    exact (ofConfidence_mirrors edge u a).bind (fun trust => discount_mirrors trust x)

/-- Scores can be combined as opinions in either way and followed along a chain of trust, whatever
their number. The masses of the result are off one by no more than the rounding unit, and guarded
numbers arrive at the same result, so nothing is divided by zero. -/
theorem scores_make_opinions {scores : List K} (some : scores ≠ [])
    (units : ∀ s ∈ scores, InUnit s) (hu : InUnit u) (ha : InUnit a) :
    (∀ kind, ∃ o, ofSources scores u kind a = .ok o ∧ Bounded Scalar.epsilon o ∧
      ofSources (scores.map number) (number u) kind (number a) = .ok o.guarded) ∧
    ∃ o, ofChain scores u a = .ok o ∧ Bounded Scalar.epsilon o ∧
      ofChain (scores.map number) (number u) (number a) = .ok o.guarded := by
  constructor
  · intro kind
    obtain ⟨o, made, bounded⟩ := exists_ofSources some units hu ha kind
    exact ⟨o, made, bounded, ofSources_mirrors some u a kind o made⟩
  · obtain ⟨o, made, bounded⟩ := exists_ofChain some units hu ha
    exact ⟨o, made, bounded, ofChain_mirrors scores u a o made⟩

/-- Certain scores are fused although the general formula would divide by zero. -/
theorem scores_make_opinions_certain :
    ∃ o, ofSources [9 / 10, 0, 3 / 5] (0 : ℚ) .cumulative (1 / 2) = .ok o ∧
      Bounded Scalar.epsilon o ∧ o.belief = 21 / 40 := by
  obtain ⟨fused, -⟩ := scores_make_opinions (K := ℚ) (u := 0) (a := 1 / 2)
    (List.cons_ne_nil (9 / 10) [0, 3 / 5]) (by decide +kernel) (by decide +kernel)
    (by decide +kernel)
  obtain ⟨o, made, bounded, -⟩ := fused .cumulative
  refine ⟨o, made, bounded, ?_⟩
  have value : (ofSources [9 / 10, 0, 3 / 5] (0 : ℚ) .cumulative (1 / 2)).toOption.any
      (fun o => decide (o.belief = 21 / 40)) = true := by decide +kernel
  rw [made] at value
  exact of_decide_eq_true value

end Credence.Opinion
