import Mathlib.Algebra.BigOperators.Field
import Mathlib.Algebra.BigOperators.Fin
import Mathlib.Algebra.Order.BigOperators.Ring.Finset
import Mathlib.Algebra.Order.Field.Basic
import Credence.Proofs.Scalar.Exact

/-! # Weighted means

The mean of some numbers by weights that are not negative and do not all vanish. It lies between
any two bounds of the numbers, so between the least and the greatest of them, and the mean of a sum
is the sum of the means. A plain mean is the one whose weights are all one.
-/

namespace Credence.Scalar
variable {K : Type} [Field K] [LinearOrder K]

/-- Lies between the least and the greatest of some numbers. -/
def Amid (values : List K) (v : K) : Prop :=
  ∃ low high, IsLeast {a | a ∈ values} low ∧ IsGreatest {a | a ∈ values} high ∧
    low ≤ v ∧ v ≤ high

theorem exists_isLeast_isGreatest {values : List K} (some : values ≠ []) :
    (∃ low, IsLeast {a | a ∈ values} low) ∧ ∃ high, IsGreatest {a | a ∈ values} high := by
  have nonempty : values.toFinset.Nonempty := by simpa using some
  rw [← List.coe_toFinset]
  exact ⟨⟨_, values.toFinset.isLeast_min' nonempty⟩, _, values.toFinset.isGreatest_max' nonempty⟩

theorem Amid.eq_of_forall {values : List K} {v c : K} (h : Amid values v)
    (same : ∀ a ∈ values, a = c) : v = c := by
  obtain ⟨low, high, least, greatest, above, below⟩ := h
  rw [same low least.1] at above
  rw [same high greatest.1] at below
  exact le_antisymm below above

section
variable {ι : Type} [Fintype ι]

def weightedMean (w f : ι → K) : K := (∑ i, f i * w i) / ∑ i, w i

theorem weightedMean_add (w f g : ι → K) :
    weightedMean w (fun i => f i + g i) = weightedMean w f + weightedMean w g := by
  simp only [weightedMean, add_mul, Finset.sum_add_distrib, add_div]

theorem weightedMean_const {w : ι → K} (weighty : ∑ i, w i ≠ 0) (c : K) :
    weightedMean w (fun _ => c) = c := by
  rw [weightedMean, ← Finset.mul_sum, mul_div_assoc, div_self weighty, mul_one]

/-- Only numbers that have some weight count. -/
theorem weightedMean_of_support {w f : ι → K} {c : K} (weighty : ∑ i, w i ≠ 0)
    (same : ∀ i, w i ≠ 0 → f i = c) : weightedMean w f = c := by
  have terms (i : ι) : f i * w i = c * w i := by
    by_cases light : w i = 0
    · rw [light, mul_zero, mul_zero]
    · rw [same i light]
  rw [← weightedMean_const weighty c]
  simp only [weightedMean, terms]

variable [IsStrictOrderedRing K]

theorem weightedMean_mono {w f g : ι → K} (nonneg : ∀ i, 0 ≤ w i) (below : ∀ i, f i ≤ g i) :
    weightedMean w f ≤ weightedMean w g := by
  apply div_le_div_of_nonneg_right
  · exact Finset.sum_le_sum (fun i _ => mul_le_mul_of_nonneg_right (below i) (nonneg i))
  · exact Finset.sum_nonneg (fun i _ => nonneg i)

theorem le_weightedMean {w f : ι → K} {c : K} (nonneg : ∀ i, 0 ≤ w i) (weighty : ∑ i, w i ≠ 0)
    (above : ∀ i, c ≤ f i) : c ≤ weightedMean w f := by
  rw [← weightedMean_const weighty c]
  exact weightedMean_mono nonneg above

theorem weightedMean_le {w f : ι → K} {c : K} (nonneg : ∀ i, 0 ≤ w i) (weighty : ∑ i, w i ≠ 0)
    (below : ∀ i, f i ≤ c) : weightedMean w f ≤ c := by
  rw [← weightedMean_const weighty c]
  exact weightedMean_mono nonneg below

theorem inUnit_weightedMean {w f : ι → K} (nonneg : ∀ i, 0 ≤ w i) (weighty : ∑ i, w i ≠ 0)
    (units : ∀ i, InUnit (f i)) : InUnit (weightedMean w f) :=
  ⟨le_weightedMean nonneg weighty (fun i => (units i).1),
    weightedMean_le nonneg weighty (fun i => (units i).2)⟩

theorem amid_weightedMean {w f : ι → K} {values : List K} (nonneg : ∀ i, 0 ≤ w i)
    (weighty : ∑ i, w i ≠ 0) (among : ∀ i, f i ∈ values) : Amid values (weightedMean w f) := by
  obtain ⟨i, -, -⟩ := Finset.exists_ne_zero_of_sum_ne_zero weighty
  obtain ⟨⟨low, least⟩, high, greatest⟩ :=
    exists_isLeast_isGreatest (List.ne_nil_of_mem (among i))
  exact ⟨low, high, least, greatest, le_weightedMean nonneg weighty (fun i => least.2 (among i)),
    weightedMean_le nonneg weighty (fun i => greatest.2 (among i))⟩

end

theorem mean_eq_weightedMean {α : Type} (f : α → K) (xs : List α) :
    mean (xs.map f) = weightedMean (fun _ : Fin xs.length => 1) (fun i => f xs[i]) := by
  rw [mean, sum_eq, weightedMean, List.length_map, ← List.ofFn_getElem_eq_map, List.sum_ofFn]
  simp

section
variable [IsStrictOrderedRing K] {α : Type} {f : α → K} {xs : List α} {c : K}

theorem le_mean (some : xs ≠ []) (above : ∀ x ∈ xs, c ≤ f x) : c ≤ mean (xs.map f) := by
  rw [mean_eq_weightedMean]
  apply le_weightedMean
  · simp
  · simpa using some
  · intro i
    exact above _ (List.getElem_mem _)

theorem mean_le (some : xs ≠ []) (below : ∀ x ∈ xs, f x ≤ c) : mean (xs.map f) ≤ c := by
  rw [mean_eq_weightedMean]
  apply weightedMean_le
  · simp
  · simpa using some
  · intro i
    exact below _ (List.getElem_mem _)

theorem inUnit_mean (some : xs ≠ []) (units : ∀ x ∈ xs, InUnit (f x)) :
    InUnit (mean (xs.map f)) :=
  ⟨le_mean some (fun x hx => (units x hx).1), mean_le some (fun x hx => (units x hx).2)⟩

end

end Credence.Scalar
