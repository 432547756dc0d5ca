import Credence.Proofs.Opinion.Guarded

/-! # Fusion leaves less uncertain

Whoever adds up evidence becomes no less certain. Cumulative fusion of two opinions leaves no more
uncertain than either of them does, by the general formula as well as by the mean of two dogmatic
ones, which leaves nothing uncertain. So what a fusion of many leaves uncertain only falls from one
opinion to the next.
-/

namespace Credence.Opinion
variable {K : Type} [Field K] [LinearOrder K] [IsStrictOrderedRing K] {x y z : Opinion K}

/-- The general formula for what is left uncertain needs no settling. -/
theorem uncertainty_of_cumulativePair (apart : ¬ (x.isDogmatic = true ∧ y.isDogmatic = true))
    (made : cumulativePair x y = .ok z) :
    z.uncertainty = x.uncertainty * y.uncertainty / cumulativeTotal x y := by
  have ux := x.bounds.uncertainty
  have uy := y.bounds.uncertainty
  have below : x.uncertainty * y.uncertainty ≤ cumulativeTotal x y :=
    (mul_le_of_le_one_right ux.1 uy.2).trans (le_cumulativeTotal x y).1
  rw [cumulativePair_eq_settle apart] at made
  obtain ⟨-, -, uncertainty, -⟩ := components_of_make made
  rw [uncertainty]
  exact settled_of_inUnit (inUnit_div (mul_nonneg ux.1 uy.1) below (cumulativeTotal_pos apart))

theorem uncertainty_le_of_cumulativePair (made : cumulativePair x y = .ok z) :
    z.uncertainty ≤ x.uncertainty := by
  have ux := x.bounds.uncertainty
  by_cases both : x.isDogmatic = true ∧ y.isDogmatic = true
  · rw [uncertainty_eq_zero_of_dogmatic both made]
    exact ux.1
  · rw [uncertainty_of_cumulativePair both made]
    exact Scalar.mul_div_add_sub_mul_le ux y.bounds.uncertainty (cumulativeTotal_pos both)

/-- What is left uncertain only falls while more opinions are fused after a first one. -/
theorem uncertainty_le_of_foldlM {opinions : List (Opinion K)}
    (run : opinions.foldlM cumulativePair x = .ok z) :
    ∀ o ∈ x :: opinions, z.uncertainty ≤ o.uncertainty := by
  induction opinions generalizing x with
  | nil =>
    cases run
    simp
  | cons y rest ih =>
    obtain ⟨next, made, run⟩ := bind_eq_ok_iff.1 (List.foldlM_cons.symm.trans run)
    obtain ⟨below, behind⟩ := List.forall_mem_cons.1 (ih run)
    have first := uncertainty_le_of_cumulativePair made
    have second := uncertainty_le_of_cumulativePair ((cumulativePair_comm y x).trans made)
    simp only [List.forall_mem_cons]
    exact ⟨below.trans first, below.trans second, behind⟩

theorem uncertainty_le_of_cumulativeFuse {opinions : List (Opinion K)}
    (fused : cumulativeFuse opinions = .ok z) : ∀ o ∈ opinions, z.uncertainty ≤ o.uncertainty := by
  cases opinions with
  | nil => exact List.forall_mem_nil _
  | cons first rest => exact uncertainty_le_of_foldlM fused

/-- Whole opinions are fused without fail, whatever their number and order and however many of them
are dogmatic. Nothing is divided by zero on the way, and the result leaves no more uncertain than
any of them. -/
theorem fusion_gains_certainty {opinions : List (Opinion K)} (some : opinions ≠ [])
    (whole : ∀ o ∈ opinions, Whole o) :
    ∃ z, cumulativeFuse opinions = .ok z ∧
      cumulativeFuse (opinions.map guarded) = .ok z.guarded ∧
      ∀ o ∈ opinions, z.uncertainty ≤ o.uncertainty := by
  obtain ⟨z, fused, -⟩ := exists_cumulativeFuse some whole
  exact ⟨z, fused, cumulativeFuse_mirrors opinions z fused, uncertainty_le_of_cumulativeFuse fused⟩

def convictions : List (Opinion ℚ) := [praise, blame, qualm]

/-- The first two are averaged, which drops some mass, and still the third one can be fused. -/
theorem fusion_gains_certainty_convictions :
    ∃ z, cumulativeFuse convictions = .ok z ∧
      cumulativeFuse (convictions.map guarded) = .ok z.guarded ∧ z.uncertainty = 0 ∧
      ¬ Whole z := by
  have some : convictions ≠ [] := List.cons_ne_nil _ _
  have whole : ∀ o ∈ convictions, Whole o := by
    simp only [convictions, List.forall_mem_cons, Whole]
    norm_num [praise, blame, qualm]
  obtain ⟨z, fused, total, below⟩ := fusion_gains_certainty some whole
  obtain ⟨same, made, lost⟩ := exists_eq_ok_of_any (x := cumulativeFuse convictions)
    (p := fun o => decide (o.belief + o.disbelief + o.uncertainty < 1)) (by decide +kernel)
  obtain rfl : z = same := Except.ok.inj (fused.symm.trans made)
  simp only [convictions, List.forall_mem_cons] at below
  obtain ⟨-, certain, -⟩ := below
  exact ⟨z, fused, total, le_antisymm certain z.bounds.uncertainty.1, (of_decide_eq_true lost).ne⟩

end Credence.Opinion
