import Mathlib.Tactic.Linarith
import Mathlib.Tactic.Ring
import Credence.Proofs.Opinion.Tolerance

/-! # The masses of fused opinions

Where no operand has more than one unit of mass, the masses that an operation computes need no
settling. So the masses of fused opinions are a function of theirs alone: an average of two dogmatic
opinions, and a blend of any others, in which each counts by what the other one leaves uncertain.
An opinion that leaves everything uncertain moves no other one, and one that leaves nothing
uncertain is moved by none that is not dogmatic.
-/

namespace Credence.Opinion
open Scalar (InUnit)
variable {K : Type} [Field K] [LinearOrder K]

attribute [ext] Masses

def masses (o : Opinion K) : Masses K := ⟨o.belief, o.disbelief, o.uncertainty⟩

namespace Masses

/-- Leaves no mass uncertain, up to rounding. -/
def Dogmatic (m : Masses K) : Prop := m.uncertainty ≤ Scalar.epsilon

instance (m : Masses K) : Decidable m.Dogmatic := inferInstanceAs (Decidable (_ ≤ _))

/-- What one or the other leaves uncertain. -/
def either (l m : Masses K) : K := l.uncertainty + m.uncertainty - l.uncertainty * m.uncertainty

/-- Belief and disbelief averaged, and nothing left uncertain. -/
def average (l m : Masses K) : Masses K :=
  ⟨Scalar.halfSum l.belief m.belief, Scalar.halfSum l.disbelief m.disbelief, 0⟩

/-- The masses of either, counted by what the other one leaves uncertain. -/
def blend (l m : Masses K) : Masses K :=
  ⟨(l.belief * m.uncertainty + m.belief * l.uncertainty) / either l m,
    (l.disbelief * m.uncertainty + m.disbelief * l.uncertainty) / either l m,
    l.uncertainty * m.uncertainty / either l m⟩

def fused (l m : Masses K) : Masses K := if l.Dogmatic ∧ m.Dogmatic then average l m else blend l m

/-- One unit of mass, shared out. -/
structure Shared (m : Masses K) : Prop where
  nonneg : m.Nonneg
  whole : m.total = 1

variable {l m : Masses K}

theorem fused_of_dogmatic (hl : l.Dogmatic) (hm : m.Dogmatic) : fused l m = average l m :=
  if_pos ⟨hl, hm⟩

theorem fused_of_apart (apart : ¬ (l.Dogmatic ∧ m.Dogmatic)) : fused l m = blend l m := if_neg apart

theorem either_comm (l m : Masses K) : either l m = either m l := by
  unfold either
  ring

theorem average_comm (l m : Masses K) : average l m = average m l := by
  ext <;> simp [average, Scalar.halfSum, add_comm]

theorem blend_comm (l m : Masses K) : blend l m = blend m l := by
  ext <;> simp only [blend, either_comm l m] <;> ring

theorem fused_comm (l m : Masses K) : fused l m = fused m l := by
  simp only [fused, average_comm l m, blend_comm l m, and_comm]

theorem Shared.eq_of_parts (hl : l.Shared) (hm : m.Shared) (belief : l.belief = m.belief)
    (disbelief : l.disbelief = m.disbelief) : l = m := by
  have same := hl.whole.trans hm.whole.symm
  rw [total, total, belief, disbelief] at same
  exact Masses.ext belief disbelief (add_left_cancel same)

end Masses

/-- What fusion computes depends on the masses alone. -/
theorem masses_fusion (x y : Opinion K) :
    (Operation.fusion x y).masses = x.masses.fused y.masses := by
  have both : (x.isDogmatic && y.isDogmatic) = true ↔ x.masses.Dogmatic ∧ y.masses.Dogmatic := by
    simp [isDogmatic, Masses.Dogmatic, masses]
  exact if_congr both rfl rfl

theorem dogmatic_masses_iff {x : Opinion K} : x.masses.Dogmatic ↔ x.isDogmatic = true :=
  decide_eq_true_iff.symm

variable [IsStrictOrderedRing K]

theorem shared_masses {x : Opinion K} (whole : Whole x) : x.masses.Shared :=
  ⟨⟨x.bounds.belief.1, x.bounds.disbelief.1, x.bounds.uncertainty.1⟩, whole⟩

namespace Operation
variable {op : Operation K}

/-- No operation makes more than one unit of mass out of operands that have no more. -/
theorem excess_nonpos (none : ∀ o ∈ op.operands, o.excess ≤ 0) : op.excess ≤ 0 := by
  cases op with
  | fusion x y =>
    obtain ⟨hx, hy, -⟩ := by simpa only [operands, List.forall_mem_cons] using none
    have ux := x.bounds.uncertainty.1
    have uy := y.bounds.uncertainty.1
    simp only [excess]
    split
    · rw [Scalar.halfSum, Nat.cast_ofNat]
      linarith
    · next apart =>
      have positive := cumulativeTotal_pos (by simpa using apart)
      exact div_nonpos_of_nonpos_of_nonneg
        (add_nonpos (mul_nonpos_of_nonpos_of_nonneg hx uy) (mul_nonpos_of_nonpos_of_nonneg hy ux))
        positive.le
  | discount trust subject =>
    obtain ⟨ht, hs, -⟩ := by simpa only [operands, List.forall_mem_cons] using none
    exact add_nonpos ht (mul_nonpos_of_nonneg_of_nonpos trust.bounds.belief.1 hs)
  | deduction x positive negative =>
    obtain ⟨hx, hp, hn, -⟩ := by simpa only [operands, List.forall_mem_cons] using none
    obtain ⟨bx, dx, ux, ax, -⟩ := x.bounds
    have held := add_nonneg bx.1 (mul_nonneg ux.1 ax.1)
    have denied := add_nonneg dx.1 (mul_nonneg ux.1 (sub_nonneg.2 ax.2))
    exact add_nonpos (add_nonpos hx (mul_nonpos_of_nonneg_of_nonpos held hp))
      (mul_nonpos_of_nonneg_of_nonpos denied hn)

theorem masses_of_run (none : ∀ o ∈ op.operands, o.excess ≤ 0) {z : Opinion K}
    (made : op.run = .ok z) : z.masses = op.masses := by
  obtain ⟨a, settled⟩ := op.run_eq_settle
  obtain ⟨hb, hd, hu⟩ := op.masses_nonneg
  have total : op.masses.total ≤ 1 := by
    rw [op.total_masses]
    exact add_le_of_nonpos_right (excess_nonpos none)
  rw [Masses.total] at total
  rw [settled] at made
  obtain ⟨belief, disbelief, uncertainty, -⟩ := components_of_make made
  rw [settled_of_inUnit ⟨hb, by linarith⟩] at belief
  rw [settled_of_inUnit ⟨hd, by linarith⟩] at disbelief
  rw [settled_of_inUnit ⟨hu, by linarith⟩] at uncertainty
  exact Masses.ext belief disbelief uncertainty

end Operation

theorem Accounted.excess_nonpos {x : Opinion K} (h : Accounted x) : x.excess ≤ 0 := by
  rcases h with whole | certain
  · exact (sub_eq_zero.2 whole).le
  · rw [excess, certain.uncertainty, add_zero]
    exact sub_nonpos.2 certain.within

theorem Accounted.masses_of_cumulativePair {x y z : Opinion K} (hx : Accounted x)
    (hy : Accounted y) (made : cumulativePair x y = .ok z) :
    z.masses = x.masses.fused y.masses := by
  have none : ∀ o ∈ (Operation.fusion x y).operands, o.excess ≤ 0 := by
    simp [Operation.operands, hx.excess_nonpos, hy.excess_nonpos]
  rw [← masses_fusion]
  exact Operation.masses_of_run none made

namespace Masses
variable {l m n : Masses K}

theorem Shared.inUnit (h : m.Shared) : InUnit m.uncertainty := by
  obtain ⟨⟨hb, hd, hu⟩, whole⟩ := h
  rw [total] at whole
  exact ⟨hu, by linarith⟩

theorem Shared.eq_zero_of_vacuous (h : m.Shared) (vacuous : m.uncertainty = 1) :
    m.belief = 0 ∧ m.disbelief = 0 := by
  obtain ⟨⟨hb, hd, -⟩, whole⟩ := h
  rw [total, vacuous] at whole
  exact ⟨by linarith, by linarith⟩

theorem either_pos (hl : InUnit l.uncertainty) (hm : InUnit m.uncertainty)
    (apart : ¬ (l.Dogmatic ∧ m.Dogmatic)) : 0 < either l m := by
  obtain ⟨low, low'⟩ := Scalar.le_add_sub_mul hl hm
  rcases not_and_or.1 apart with h | h
  · exact epsilon_pos.trans ((not_le.1 h).trans_le low)
  · exact epsilon_pos.trans ((not_le.1 h).trans_le low')

theorem pos_of_not_dogmatic (h : ¬ m.Dogmatic) : 0 < m.uncertainty :=
  epsilon_pos.trans (not_le.1 h)

theorem not_dogmatic_of_vacuous (vacuous : m.uncertainty = 1) : ¬ m.Dogmatic := by
  rw [Dogmatic, vacuous]
  exact not_le.2 epsilon_lt_one

theorem fused_uncertainty_nonneg (hl : InUnit l.uncertainty) (hm : InUnit m.uncertainty) :
    0 ≤ (fused l m).uncertainty := by
  by_cases both : l.Dogmatic ∧ m.Dogmatic
  · rw [fused_of_dogmatic both.1 both.2]
    exact le_rfl
  · rw [fused_of_apart both]
    exact div_nonneg (mul_nonneg hl.1 hm.1) (either_pos hl hm both).le

theorem fused_uncertainty_le (hl : InUnit l.uncertainty) (hm : InUnit m.uncertainty) :
    (fused l m).uncertainty ≤ l.uncertainty := by
  by_cases both : l.Dogmatic ∧ m.Dogmatic
  · rw [fused_of_dogmatic both.1 both.2]
    exact hl.1
  · rw [fused_of_apart both]
    exact Scalar.mul_div_add_sub_mul_le hl hm (either_pos hl hm both)

theorem inUnit_fused (hl : InUnit l.uncertainty) (hm : InUnit m.uncertainty) :
    InUnit (fused l m).uncertainty :=
  ⟨fused_uncertainty_nonneg hl hm, (fused_uncertainty_le hl hm).trans hl.2⟩

theorem Dogmatic.fused_left (h : l.Dogmatic) (hl : InUnit l.uncertainty)
    (hm : InUnit m.uncertainty) : (fused l m).Dogmatic :=
  (fused_uncertainty_le hl hm).trans h

theorem Dogmatic.fused_right (h : m.Dogmatic) (hl : InUnit l.uncertainty)
    (hm : InUnit m.uncertainty) : (fused l m).Dogmatic :=
  fused_comm m l ▸ h.fused_left hm hl

theorem fused_uncertainty_pos (hl : InUnit l.uncertainty) (hm : InUnit m.uncertainty)
    (apart : ¬ (l.Dogmatic ∧ m.Dogmatic)) (some : 0 < l.uncertainty) (some' : 0 < m.uncertainty) :
    0 < (fused l m).uncertainty := by
  rw [fused_of_apart apart]
  exact div_pos (mul_pos some some') (either_pos hl hm apart)

theorem Shared.fused (hl : l.Shared) (hm : m.Shared) (apart : ¬ (l.Dogmatic ∧ m.Dogmatic)) :
    (fused l m).Shared := by
  have positive := either_pos hl.inUnit hm.inUnit apart
  have shares := blended_shares hl.whole hm.whole
  obtain ⟨⟨bl, dl, ul⟩, -⟩ := hl
  obtain ⟨⟨bm, dm, um⟩, -⟩ := hm
  rw [fused_of_apart apart]
  refine ⟨⟨div_nonneg (add_nonneg (mul_nonneg bl um) (mul_nonneg bm ul)) positive.le,
    div_nonneg (add_nonneg (mul_nonneg dl um) (mul_nonneg dm ul)) positive.le,
    div_nonneg (mul_nonneg ul um) positive.le⟩, ?_⟩
  rw [total, blend, ← add_div, ← add_div, shares]
  exact div_self positive.ne'

/-- An opinion that leaves nothing uncertain is moved by dogmatic ones only. -/
theorem fused_eq_left_of_certain (certain : l.uncertainty = 0) (uncertain : ¬ m.Dogmatic) :
    fused l m = l := by
  have some := (pos_of_not_dogmatic uncertain).ne'
  rw [fused_of_apart (fun both => uncertain both.2)]
  ext <;> simp [blend, either, certain, some]

/-- An opinion that leaves everything uncertain moves no other one. -/
theorem fused_eq_left_of_vacuous (hm : m.Shared) (vacuous : m.uncertainty = 1) : fused l m = l := by
  obtain ⟨belief, disbelief⟩ := hm.eq_zero_of_vacuous vacuous
  rw [fused_of_apart (fun both => not_dogmatic_of_vacuous vacuous both.2)]
  ext <;> simp [blend, either, vacuous, belief, disbelief]

theorem average_self (certain : m.uncertainty = 0) : average m m = m := by
  ext <;> simp [average, Scalar.halfSum, certain]

theorem average_cancel (hm : m.Shared) (hn : n.Shared) (same : average l m = average l n) :
    m = n := by
  simp only [average, Scalar.halfSum, Nat.cast_ofNat, Masses.mk.injEq, and_true] at same
  refine hm.eq_of_parts hn ?_ ?_ <;> linarith

end Masses
end Credence.Opinion
