import Mathlib.Data.List.Perm.Basic
import Credence.Proofs.Scalar.Mean
import Credence.Proofs.Score.Pool
import Credence.Proofs.Traversal

/-! # Combined scores

Scores combine exactly where there is one and all of them are scores. With exact scalars the
result is a score again without being clamped, and it depends on which scores are combined but not
on their order.
-/

namespace Credence

section
variable {R : Type} [Scalar R]

theorem combine_eq_ok_iff {scores : List R} {method : Combination} {result : CombinationResult R} :
    combine scores method = .ok result ↔
      scores ≠ [] ∧ (∀ s ∈ scores, Scalar.InUnit s) ∧
        result = ⟨Scalar.clampUnit (method.raw scores), method, scores⟩ := checked_eq_ok_iff

theorem exists_combine_iff {scores : List R} {method : Combination} :
    (∃ result, combine scores method = .ok result) ↔
      scores ≠ [] ∧ ∀ s ∈ scores, Scalar.InUnit s := by
  simp only [combine_eq_ok_iff, exists_and_left, exists_eq, and_true]

theorem combine_validates (scores : List R) (method : Combination) :
    Validates (combine scores method) := by
  unfold combine
  cases scores with
  | nil => exact .throw _
  | cons s rest => exact (Validates.validated _).bind (fun _ => .ok _)

/-- What the methods promise of scalars: one half is a score, and what scores combine to is one. -/
structure ScoresCombine (R : Type) [Scalar R] : Prop where
  half : Scalar.InUnit (Scalar.oneOver 2 : R)
  combined : ∀ (scores : List R) (method : Combination) (result : CombinationResult R),
    combine scores method = .ok result → Scalar.InUnit result.score

theorem ScoresCombine.exists_combine (h : ScoresCombine R) {scores : List R} (method : Combination)
    (some : scores ≠ []) (units : ∀ s ∈ scores, Scalar.InUnit s) :
    ∃ result, combine scores method = .ok result ∧ Scalar.InUnit result.score :=
  have made := combine_eq_ok_iff.2 ⟨some, units, rfl⟩
  ⟨_, made, h.combined scores method _ made⟩

end

variable {K : Type} [Field K] [LinearOrder K]

theorem largest_eq (scores : List K) : largest scores = scores.foldl max 0 := by
  have step : (Scalar.larger : K → K → K) = max := funext₂ Scalar.larger_eq_max
  rw [largest, step]

theorem largest_isGreatest (scores : List K) :
    IsGreatest {s | s ∈ 0 :: scores} (largest scores) := by
  have greatest : (0 :: scores).max? = some (largest scores) := by
    rw [List.max?_cons', largest_eq]
  exact List.max?_eq_some_iff.1 greatest

theorem largest_cons_largest (xs ys : List K) :
    largest (largest xs :: ys) = largest (xs ++ ys) := by
  have above : 0 ≤ largest xs := (largest_isGreatest xs).2 List.mem_cons_self
  rw [largest_eq, List.foldl_cons, max_eq_right above, largest_eq (xs ++ ys), List.foldl_append,
    ← largest_eq xs]

variable [IsStrictOrderedRing K]

theorem Combination.raw_dempsterShafer (scores : List K) :
    Combination.dempsterShafer.raw scores = Combination.noisyOr.raw scores :=
  dempsterShafer_eq scores

theorem Combination.raw_perm (method : Combination) {scores scores' : List K}
    (perm : scores.Perm scores') : method.raw scores = method.raw scores' := by
  have noisy : Credence.noisyOr scores = Credence.noisyOr scores' := by
    rw [noisyOr_eq, noisyOr_eq, (perm.map _).prod_eq]
  cases method with
  | noisyOr => exact noisy
  | average =>
    change Scalar.sum scores / _ = Scalar.sum scores' / _
    rw [Scalar.sum_eq, Scalar.sum_eq, perm.sum_eq, perm.length_eq]
  | max =>
    change largest scores = largest scores'
    rw [largest_eq, largest_eq]
    exact perm.foldl_eq 0
  | dempsterShafer =>
    rw [raw_dempsterShafer, raw_dempsterShafer]
    exact noisy

/-- Exact scores combine to scores. -/
theorem scoresCombine : ScoresCombine K where
  half := by
    rw [Scalar.inUnit_iff]
    change 0 ≤ 1 / ((2 : ℕ) : K) ∧ 1 / ((2 : ℕ) : K) ≤ 1
    rw [Nat.cast_ofNat]
    exact ⟨one_half_pos.le, one_half_lt_one.le⟩
  combined scores method result h := by
    rcases combine_eq_ok_iff.1 h with ⟨-, -, rfl⟩
    exact Scalar.clampUnit_inUnit _

theorem combine_perm {scores scores' : List K} {method : Combination}
    {result : CombinationResult K} (perm : scores.Perm scores')
    (h : combine scores method = .ok result) :
    combine scores' method = .ok { result with inputScores := scores' } := by
  rcases combine_eq_ok_iff.1 h with ⟨some, units, rfl⟩
  refine combine_eq_ok_iff.2 ⟨fun none => some ?_, fun s hs => units s (perm.mem_iff.2 hs), ?_⟩
  · rw [none] at perm
    exact perm.eq_nil
  · rw [method.raw_perm perm]

/-- Scores can be combined step by step, but not averaged: an average does not tell of how many
scores it is one. -/
theorem Combination.raw_cons_raw {method : Combination} (apart : method ≠ .average)
    (xs ys : List K) : method.raw (method.raw xs :: ys) = method.raw (xs ++ ys) := by
  cases method with
  | noisyOr => exact noisyOr_cons_noisyOr xs ys
  | average => exact absurd rfl apart
  | max => exact largest_cons_largest xs ys
  | dempsterShafer =>
    rw [raw_dempsterShafer, raw_dempsterShafer, raw_dempsterShafer]
    exact noisyOr_cons_noisyOr xs ys

section
variable {scores : List K} (units : ∀ s ∈ scores, Scalar.InUnit s)
include units

theorem complements_inUnit : ∀ v ∈ scores.map (fun p => 1 - p), Scalar.InUnit v :=
  List.forall_mem_map.2 (fun s hs => Scalar.inUnit_complement (units s hs))

theorem noisyOr_inUnit : Scalar.InUnit (noisyOr scores) := by
  rw [noisyOr_eq]
  exact Scalar.inUnit_complement (Scalar.inUnit_prod (complements_inUnit units))

theorem largest_inUnit : Scalar.InUnit (largest scores) := by
  have among : ∀ s ∈ 0 :: scores, Scalar.InUnit s :=
    List.forall_mem_cons.2 ⟨⟨le_rfl, zero_le_one⟩, units⟩
  exact among _ (largest_isGreatest scores).1

theorem le_noisyOr {s : K} (among : s ∈ scores) : s ≤ noisyOr scores := by
  have missed := Scalar.prod_le_of_mem (complements_inUnit units) (List.mem_map_of_mem among)
  rw [noisyOr_eq]
  exact le_sub_comm.1 missed

theorem noisyOr_le_append {s : K} (unit : Scalar.InUnit s) :
    noisyOr scores ≤ noisyOr (scores ++ [s]) := by
  have both : ∀ p ∈ [noisyOr scores, s], Scalar.InUnit p := by
    simp only [List.forall_mem_cons]
    exact ⟨noisyOr_inUnit units, unit, List.forall_mem_nil _⟩
  rw [← noisyOr_cons_noisyOr]
  exact le_noisyOr both List.mem_cons_self

theorem largest_le_noisyOr : largest scores ≤ noisyOr scores := by
  have above : ∀ s ∈ 0 :: scores, s ≤ noisyOr scores :=
    List.forall_mem_cons.2 ⟨(noisyOr_inUnit units).1, fun s hs => le_noisyOr units hs⟩
  exact above _ (largest_isGreatest scores).1

end

/-- What is combined need not be kept within bounds. -/
theorem Combination.raw_inUnit (method : Combination) {scores : List K} (present : scores ≠ [])
    (units : ∀ s ∈ scores, Scalar.InUnit s) : Scalar.InUnit (method.raw scores) := by
  cases method with
  | noisyOr => exact noisyOr_inUnit units
  | average =>
    change Scalar.InUnit (Scalar.mean scores)
    simpa using Scalar.inUnit_mean (f := id) present units
  | max => exact largest_inUnit units
  | dempsterShafer =>
    rw [raw_dempsterShafer]
    exact noisyOr_inUnit units

theorem combine_eq_raw (method : Combination) {scores : List K} (present : scores ≠ [])
    (units : ∀ s ∈ scores, Scalar.InUnit s) :
    combine scores method = .ok ⟨method.raw scores, method, scores⟩ :=
  combine_eq_ok_iff.2
    ⟨present, units, by rw [Scalar.clampUnit_of_inUnit (method.raw_inUnit present units)]⟩

theorem score_of_combine {method : Combination} {scores : List K} {result : CombinationResult K}
    (h : combine scores method = .ok result) : result.score = method.raw scores := by
  rcases combine_eq_ok_iff.1 h with ⟨present, units, rfl⟩
  exact Scalar.clampUnit_of_inUnit (method.raw_inUnit present units)

/-- What some scores are held with together: nothing for none, one alone as it is, and several
combined. -/
def Combination.pooled {R : Type} [Scalar R] (method : Combination) : List R → Option R
  | [] => none
  | [c] => some c
  | scores => some (method.raw scores)

theorem Combination.exists_pooled {R : Type} [Scalar R] (method : Combination) {scores : List R}
    (present : scores ≠ []) : ∃ c, method.pooled scores = some c := by
  match scores, present with
  | [c], _ => exact ⟨c, rfl⟩
  | _ :: _ :: _, _ => exact ⟨_, rfl⟩

theorem Combination.pooled_append {method : Combination} (apart : method ≠ .average)
    (xs ys : List K) :
    method.pooled ((method.pooled xs).toList ++ ys) = method.pooled (xs ++ ys) := by
  match xs with
  | [] => rfl
  | [c] => rfl
  | x :: x' :: xs =>
    cases ys with
    | nil =>
      rw [List.append_nil, List.append_nil]
      rfl
    | cons y ys =>
      change some (method.raw (method.raw (x :: x' :: xs) :: y :: ys)) = _
      rw [raw_cons_raw apart]
      rfl

end Credence
