import Mathlib.Algebra.BigOperators.Fin
import Credence.Opinion.Fusion
import Credence.Proofs.Scalar.Exact

/-! # Products of all others

The product of all values but one is taken without a division. One pass multiplies up the values in
front of each place, another one from the end those that come after it, and where the two passes
meet they leave out one value. So the product is also right where that value is zero, and with that
value it makes up the product of all.
-/

namespace Credence.Opinion

section
variable {R : Type} [Scalar R]

/-- The second pass is the first one from the other end. -/
theorem productsFrom_eq_reverse (values : List R) :
    productsFrom values = (productsBefore values.reverse).reverse := List.scanr_eq_scanl_reverse

theorem length_leaveOneOut (values : List R) : (leaveOneOut values).length = values.length := by
  simp [leaveOneOut, productsBefore, productsFrom]

end

variable {K : Type} [Field K] [LinearOrder K]

theorem getElem?_productsBefore {values : List K} {i : ℕ} (place : i ≤ values.length) :
    (productsBefore values)[i]? = some (values.take i).prod := by
  rw [productsBefore, List.getElem?_scanl, if_pos place, List.prod_eq_foldl]

theorem getElem?_productsFrom {values : List K} {i : ℕ} (place : i ≤ values.length) :
    (productsFrom values)[i]? = some (values.drop i).prod := by
  rw [productsFrom, List.getElem?_scanr, if_pos (Nat.lt_succ_of_le place), List.prod_eq_foldr]
  simp only [mul_comm]

/-- At each place the passes meet on both sides of the value that is left out. -/
theorem getElem?_leaveOneOut {values : List K} {i : ℕ} (place : i < values.length) :
    (leaveOneOut values)[i]? = some ((values.take i).prod * (values.drop (i + 1)).prod) := by
  rw [leaveOneOut, List.getElem?_zipWith, List.getElem?_tail, getElem?_productsBefore place.le,
    getElem?_productsFrom place]

section
variable {n : ℕ}

theorem prod_erase_zero {M : Type} [CommMonoid M] (u : Fin (n + 1) → M) :
    ∏ j ∈ Finset.univ.erase 0, u j = ∏ j : Fin n, u j.succ := by
  have first : (Finset.univ.erase 0 : Finset (Fin (n + 1))) = Finset.univ.image Fin.succ := by
    ext j
    cases j using Fin.cases <;> simp
  rw [first, Finset.prod_image (Fin.succ_injective n).injOn]

theorem prod_erase_succ {M : Type} [CommMonoid M] (u : Fin (n + 1) → M) (i : Fin n) :
    ∏ j ∈ Finset.univ.erase i.succ, u j = u 0 * ∏ j ∈ Finset.univ.erase i, u j.succ := by
  have later : Finset.univ.erase i.succ = insert 0 ((Finset.univ.erase i).image Fin.succ) := by
    ext j
    cases j using Fin.cases <;> simp [(Fin.succ_ne_zero i).symm]
  rw [later, Finset.prod_insert (by simp), Finset.prod_image (Fin.succ_injective n).injOn]

theorem prod_take_mul_prod_drop_succ {M : Type} [CommMonoid M] (u : Fin n → M) (i : Fin n) :
    ((List.ofFn u).take i).prod * ((List.ofFn u).drop (i + 1)).prod =
      ∏ j ∈ Finset.univ.erase i, u j := by
  induction n with
  | zero => exact i.elim0
  | succ n ih =>
    cases i using Fin.cases with
    | zero => simp [List.ofFn_succ, List.prod_ofFn, prod_erase_zero]
    | succ i => simp [List.ofFn_succ, prod_erase_succ, ← ih, mul_assoc]

theorem leaveOneOut_ofFn (u : Fin n → K) :
    leaveOneOut (List.ofFn u) = List.ofFn (fun i => ∏ j ∈ Finset.univ.erase i, u j) := by
  refine List.ext_getElem? (fun i => ?_)
  by_cases place : i < n
  · rw [getElem?_leaveOneOut (by simpa using place), List.getElem?_ofFn, dif_pos place]
    exact congrArg some (prod_take_mul_prod_drop_succ u ⟨i, place⟩)
  · rw [List.getElem?_eq_none (by simpa [length_leaveOneOut] using place),
      List.getElem?_eq_none (by simpa using place)]

end

/-- There is one product for each value. It is that of all other values, and with this value it
makes up the product of all, whether or not some of them are zero. -/
theorem leaveOneOut_completes (values : List K) :
    (leaveOneOut values).length = values.length ∧
      ∀ i : Fin values.length, ∃ others, (leaveOneOut values)[i]? = some others ∧
        others = ∏ j ∈ Finset.univ.erase i, values.get j ∧ values.get i * others = values.prod := by
  refine ⟨length_leaveOneOut values, fun i => ?_⟩
  have others := prod_take_mul_prod_drop_succ values.get i
  rw [List.ofFn_get] at others
  refine ⟨_, getElem?_leaveOneOut i.isLt, others, ?_⟩
  calc values.get i * ((values.take i).prod * (values.drop (i + 1)).prod)
      = values.get i * ∏ j ∈ Finset.univ.erase i, values.get j := by rw [others]
    _ = ∏ j, values.get j := Finset.mul_prod_erase _ values.get (Finset.mem_univ i)
    _ = values.prod := by rw [← List.prod_ofFn, List.ofFn_get]

/-- A zero is left out of its own product only. -/
example : leaveOneOut [(2 : ℚ), 0, 3] = [0, 6, 0] := by decide +kernel

end Credence.Opinion
