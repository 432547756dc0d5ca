import Mathlib.Algebra.Order.Field.Basic
import Credence.Proofs.Score.Combination

/-! # Combined scores grow with evidence

What sources combine to is a matter of which scores they give, not of their order, and it does not
fall where one of the scores is raised. Where scores are not averaged it does not fall below any of
them either. What some of them come to counts as one score beside the others, so a further source
does not lower it.
-/

namespace Credence
open Scalar (InUnit)
variable {K : Type} [Field K] [LinearOrder K] [IsStrictOrderedRing K] {scores : List K} {s t : K}

namespace Combination

/-- A higher score of one source. It may stand first, for the order of the sources is free. -/
theorem raw_cons_le_raw_cons (method : Combination) (raised : s ≤ t)
    (units : ∀ p ∈ scores, InUnit p) : method.raw (s :: scores) ≤ method.raw (t :: scores) := by
  have noisy : Credence.noisyOr (s :: scores) ≤ Credence.noisyOr (t :: scores) := by
    have missed := (Scalar.inUnit_prod (complements_inUnit units)).1
    simp only [noisyOr_eq, List.map_cons, List.prod_cons]
    exact sub_le_sub_left (mul_le_mul_of_nonneg_right (sub_le_sub_left raised 1) missed) 1
  cases method with
  | noisyOr => exact noisy
  | average =>
    change Scalar.sum (s :: scores) / (scores.length + 1 : ℕ) ≤
      Scalar.sum (t :: scores) / (scores.length + 1 : ℕ)
    rw [Scalar.sum_eq, Scalar.sum_eq, List.sum_cons, List.sum_cons]
    exact div_le_div_of_nonneg_right (add_le_add_left raised _) (Nat.cast_nonneg _)
  | max =>
    have greatest := (largest_isGreatest (t :: scores)).2
    have above : ∀ p ∈ 0 :: s :: scores, p ≤ largest (t :: scores) := by
      simp only [List.forall_mem_cons]
      exact ⟨greatest (by simp), raised.trans (greatest (by simp)),
        fun p hp => greatest (by simp [hp])⟩
    exact above _ (largest_isGreatest (s :: scores)).1
  | dempsterShafer =>
    rw [raw_dempsterShafer, raw_dempsterShafer]
    exact noisy

theorem raw_raise (method : Combination) (before after : List K) (raised : s ≤ t)
    (units : ∀ p ∈ before ++ after, InUnit p) :
    method.raw (before ++ s :: after) ≤ method.raw (before ++ t :: after) := by
  rw [method.raw_perm List.perm_middle, method.raw_perm List.perm_middle]
  exact method.raw_cons_le_raw_cons raised units

/-- No score exceeds what it is combined to with others, unless they are averaged. -/
theorem le_raw {method : Combination} (apart : method ≠ .average) (units : ∀ p ∈ scores, InUnit p)
    (among : s ∈ scores) : s ≤ method.raw scores := by
  cases method with
  | noisyOr => exact le_noisyOr units among
  | average => exact absurd rfl apart
  | max => exact (largest_isGreatest scores).2 (List.mem_cons_of_mem 0 among)
  | dempsterShafer =>
    rw [raw_dempsterShafer]
    exact le_noisyOr units among

theorem raw_le_append {method : Combination} (apart : method ≠ .average) (present : scores ≠ [])
    (units : ∀ p ∈ scores, InUnit p) (unit : InUnit s) :
    method.raw scores ≤ method.raw (scores ++ [s]) := by
  have both : ∀ p ∈ [method.raw scores, s], InUnit p := by
    simp only [List.forall_mem_cons]
    exact ⟨method.raw_inUnit present units, unit, List.forall_mem_nil _⟩
  rw [← raw_cons_raw apart]
  exact le_raw apart both List.mem_cons_self

end Combination

/-- Scores combine to the same score in any order. The score does not fall where one of them is
raised within the unit interval, nor, unless they are averaged, where a further one is added. -/
theorem combination_rewards_evidence (method : Combination) (present : scores ≠ [])
    (units : ∀ p ∈ scores, InUnit p) :
    ∃ result, combine scores method = .ok result ∧
      (∀ reordered, scores.Perm reordered →
        ∃ result', combine reordered method = .ok result' ∧ result'.score = result.score) ∧
      (∀ before s after t, scores = before ++ s :: after → s ≤ t → t ≤ 1 →
        ∃ result', combine (before ++ t :: after) method = .ok result' ∧
          result.score ≤ result'.score) ∧
      (method ≠ .average → ∀ s, InUnit s →
        ∃ result', combine (scores ++ [s]) method = .ok result' ∧
          result.score ≤ result'.score) := by
  have made := combine_eq_raw method present units
  refine ⟨_, made, fun reordered perm => ⟨_, combine_perm perm made, rfl⟩, ?_, ?_⟩
  · rintro before s after t rfl raised most
    obtain ⟨here, others⟩ := forall_mem_middle.1 units
    have unit : InUnit t := ⟨here.1.trans raised, most⟩
    exact ⟨_, combine_eq_raw method (by simp) (forall_mem_middle.2 ⟨unit, others⟩),
      method.raw_raise before after raised others⟩
  · intro apart s unit
    have units' : ∀ p ∈ scores ++ [s], InUnit p :=
      List.forall_mem_append.2 ⟨units, List.forall_mem_singleton.2 unit⟩
    exact ⟨_, combine_eq_raw method (by simp) units',
      Combination.raw_le_append apart present units unit⟩

theorem combination_rewards_evidence_pooled :
    ∃ two swapped certain three, combine [1 / 2, (1 / 4 : ℚ)] .dempsterShafer = .ok two ∧
      combine [1 / 4, (1 / 2 : ℚ)] .dempsterShafer = .ok swapped ∧
      combine [1 / 2, (1 : ℚ)] .dempsterShafer = .ok certain ∧
      combine [1 / 2, 1 / 4, (0 : ℚ)] .dempsterShafer = .ok three ∧
      swapped.score = two.score ∧ two.score ≤ certain.score ∧ two.score ≤ three.score := by
  have units : ∀ p ∈ [1 / 2, (1 / 4 : ℚ)], InUnit p := by decide +kernel
  obtain ⟨two, made, reorder, raise, more⟩ :=
    combination_rewards_evidence .dempsterShafer (List.cons_ne_nil _ _) units
  obtain ⟨swapped, made', same⟩ := reorder [1 / 4, 1 / 2] (List.Perm.swap _ _ [])
  obtain ⟨certain, raised, higher⟩ :=
    raise [1 / 2] (1 / 4) [] 1 rfl (by decide +kernel) (by decide +kernel)
  obtain ⟨three, added, kept⟩ := more (by decide) 0 (by decide +kernel)
  exact ⟨two, swapped, certain, three, made, made', raised, added, same, higher, kept⟩

/-- An average does fall where a source that knows nothing is added. -/
example : Scalar.mean [1 / 2, (0 : ℚ)] < Scalar.mean [1 / 2] := by decide +kernel

end Credence
