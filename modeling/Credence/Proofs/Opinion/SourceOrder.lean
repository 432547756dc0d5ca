import Credence.Proofs.Opinion.Averaging

/-! # The order of averaged sources

Averaging fusion forms sums and products over its sources, so that their order does not matter. The
weights are multiplied up from both ends of the list, but a sum by weights can be taken source by
source: each one adds its component by the product of all others, and scales what the others add.
Which sources are averaged plainly is a matter of each source alone.
-/

namespace Credence.Opinion
variable {K : Type} [Field K] [LinearOrder K]

theorem othersUncertainty_cons_zero (o : Opinion K) (rest : List (Opinion K)) :
    othersUncertainty (o :: rest) 0 = (rest.map uncertainty).prod := by
  refine (prod_erase_zero (fun j : Fin (rest.length + 1) => (o :: rest)[j].uncertainty)).trans ?_
  rw [← List.ofFn_getElem_eq_map, List.prod_ofFn]
  rfl

theorem othersUncertainty_cons_succ (o : Opinion K) (rest : List (Opinion K))
    (i : Fin rest.length) :
    othersUncertainty (o :: rest) i.succ = o.uncertainty * othersUncertainty rest i :=
  prod_erase_succ (fun j : Fin (rest.length + 1) => (o :: rest)[j].uncertainty) i

/-- One more source adds its component and scales what the others add. -/
theorem weightedSum_cons (component : Opinion K → K) (o : Opinion K) (rest : List (Opinion K)) :
    weightedSum component (o :: rest) =
      component o * (rest.map uncertainty).prod + o.uncertainty * weightedSum component rest := by
  rw [weightedSum_eq, weightedSum_eq, Finset.mul_sum]
  refine (Fin.sum_univ_succ _).trans (congrArg₂ _ ?_ (Finset.sum_congr rfl fun i _ => ?_))
  · rw [othersUncertainty_cons_zero]
    rfl
  · rw [othersUncertainty_cons_succ, mul_left_comm]
    rfl

theorem sum_averagingWeights_eq_weightedSum (opinions : List (Opinion K)) :
    Scalar.sum (averagingWeights opinions) = weightedSum (fun _ => 1) opinions := by
  simp only [sum_averagingWeights, weightedSum_eq, one_mul]

section
variable {xs ys : List (Opinion K)} (h : xs.Perm ys)
include h

theorem weightedSum_perm (component : Opinion K → K) :
    weightedSum component xs = weightedSum component ys := by
  induction h with
  | nil => rfl
  | cons o same ih => rw [weightedSum_cons, weightedSum_cons, ih, (same.map uncertainty).prod_eq]
  | swap x y rest =>
    simp only [weightedSum_cons, List.map_cons, List.prod_cons]
    ring
  | trans _ _ ih ih' => exact ih.trans ih'

theorem mean_map_perm (component : Opinion K → K) :
    Scalar.mean (xs.map component) = Scalar.mean (ys.map component) := by
  simp only [Scalar.mean, Scalar.sum_eq, (h.map component).sum_eq, (h.map component).length_eq]

theorem plainMean_perm (a : K) : plainMean xs a = plainMean ys a := by
  simp only [plainMean, mean_map_perm h]

theorem pooled_perm : (pooled xs).Perm (pooled ys) := by
  have certain := h.filter isDogmatic
  unfold pooled
  rw [certain.isEmpty_eq]
  split
  · exact h
  · exact certain

theorem averagingMany_perm : averagingMany xs = averagingMany ys := by
  have product : Scalar.product (xs.map uncertainty) = Scalar.product (ys.map uncertainty) := by
    rw [Scalar.product_eq, Scalar.product_eq, (h.map uncertainty).prod_eq]
  have plain (a : K) : plainMean (pooled xs) a = plainMean (pooled ys) a :=
    plainMean_perm (pooled_perm h) a
  unfold pooled at plain
  simp only [averagingMany, sum_averagingWeights_eq_weightedSum, weightedSum_perm h,
    mean_map_perm h, h.length_eq, product, plain]

end

variable [IsStrictOrderedRing K]

/-- Averaging fusion does not depend on the order of its sources, whether it succeeds or fails. -/
theorem averaging_source_order {xs ys : List (Opinion K)} (h : xs.Perm ys) :
    averagingFuse xs = averagingFuse ys := by
  rcases eq_or_ne xs [] with rfl | some
  · rw [h.nil_eq]
  · have some' : ys ≠ [] := fun none => some (List.Perm.eq_nil (none ▸ h))
    rw [averagingFuse_of_ne_nil some, averagingFuse_of_ne_nil some', averagingMany_perm h]

theorem averaging_source_order_reviews :
    averagingFuse reviews.reverse = averagingFuse reviews ∧ (averagingFuse reviews).isOk := by
  exact ⟨averaging_source_order (List.reverse_perm reviews), by decide +kernel⟩

end Credence.Opinion
