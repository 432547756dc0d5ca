import Mathlib.Tactic.FieldSimp
import Mathlib.Tactic.Linarith
import Mathlib.Tactic.NormNum
import Mathlib.Tactic.Ring
import Credence.Proofs.Opinion.Wholeness

/-! # Opinions within the tolerance

The masses of an opinion may be off one unit by the tolerance. An operation carries what its
operands are off over to the masses it computes, and these have to meet the same tolerance again.
So operands that are off by nearly the tolerance can be refused, each of them valid, while those
that are off by less than half of it cannot.
-/

namespace Credence
variable {K : Type} [Field K] [LinearOrder K]

theorem Scalar.clampUnit_of_nonneg {v : K} (h : 0 ≤ v) : Scalar.clampUnit v = min v 1 := by
  rw [Scalar.clampUnit_eq, max_eq_left h, min_comm]

namespace Opinion
open Scalar (InUnit)

/-- By how much the masses of an opinion exceed one unit. -/
def excess (o : Opinion K) : K := o.belief + o.disbelief + o.uncertainty - 1

/-- Three masses before they are settled. -/
structure Masses (K : Type) where
  belief : K
  disbelief : K
  uncertainty : K

namespace Masses

def total (m : Masses K) : K := m.belief + m.disbelief + m.uncertainty

def counted (m : Masses K) : K := min m.belief 1 + min m.disbelief 1 + min m.uncertainty 1

structure Nonneg (m : Masses K) : Prop where
  belief : 0 ≤ m.belief
  disbelief : 0 ≤ m.disbelief
  uncertainty : 0 ≤ m.uncertainty

end Masses

inductive Operation (K : Type) [Scalar K] where
  | fusion (x y : Opinion K)
  | discount (trust subject : Opinion K)
  | deduction (x positive negative : Opinion K)

namespace Operation

def operands : Operation K → List (Opinion K)
  | fusion x y => [x, y]
  | discount trust subject => [trust, subject]
  | deduction x positive negative => [x, positive, negative]

def run : Operation K → Except (Error K) (Opinion K)
  | fusion x y => cumulativePair x y
  | discount trust subject => Opinion.discount trust subject
  | deduction x positive negative => deduce x positive negative

def masses : Operation K → Masses K
  | fusion x y =>
    if x.isDogmatic && y.isDogmatic then
      ⟨Scalar.halfSum x.belief y.belief, Scalar.halfSum x.disbelief y.disbelief, 0⟩
    else
      ⟨(x.belief * y.uncertainty + y.belief * x.uncertainty) / cumulativeTotal x y,
        (x.disbelief * y.uncertainty + y.disbelief * x.uncertainty) / cumulativeTotal x y,
        (x.uncertainty * y.uncertainty) / cumulativeTotal x y⟩
  | discount trust subject =>
    ⟨trust.belief * subject.belief, trust.belief * subject.disbelief,
      trust.disbelief + trust.uncertainty + trust.belief * subject.uncertainty⟩
  | deduction x positive negative =>
    ⟨x.mix positive.belief negative.belief, x.mix positive.disbelief negative.disbelief,
      x.mix positive.uncertainty negative.uncertainty⟩

/-- By how much these masses exceed one unit, from the excess of the operands. Fusion of two
dogmatic opinions drops what they leave uncertain. -/
def excess : Operation K → K
  | fusion x y =>
    if x.isDogmatic && y.isDogmatic then
      Scalar.halfSum (x.excess - x.uncertainty) (y.excess - y.uncertainty)
    else (x.excess * y.uncertainty + y.excess * x.uncertainty) / cumulativeTotal x y
  | discount trust subject => trust.excess + trust.belief * subject.excess
  | deduction x positive negative =>
    x.excess + (x.belief + x.uncertainty * x.baseRate) * positive.excess +
      (x.disbelief + x.uncertainty * (1 - x.baseRate)) * negative.excess

theorem run_eq_settle (op : Operation K) :
    ∃ a, op.run = settle op.masses.belief op.masses.disbelief op.masses.uncertainty a := by
  cases op with
  | fusion x y =>
    refine ⟨Scalar.halfSum x.baseRate y.baseRate, ?_⟩
    simp only [run, masses, cumulativePair]
    split <;> rfl
  | discount trust subject => exact ⟨_, rfl⟩
  | deduction x positive negative => exact ⟨_, rfl⟩

end Operation

variable [IsStrictOrderedRing K]

theorem abs_excess_le (o : Opinion K) : |o.excess| ≤ tolerance := o.bounds.sum

theorem mix_nonneg (x : Opinion K) {p n : K} (hp : 0 ≤ p) (hn : 0 ≤ n) : 0 ≤ x.mix p n := by
  obtain ⟨hb, hd, hu, ha, -⟩ := x.bounds
  have prior : 0 ≤ x.baseRate * p + (1 - x.baseRate) * n :=
    add_nonneg (mul_nonneg ha.1 hp) (mul_nonneg (sub_nonneg.2 ha.2) hn)
  exact add_nonneg (add_nonneg (mul_nonneg hb.1 hp) (mul_nonneg hd.1 hn)) (mul_nonneg hu.1 prior)

namespace Masses
variable {m : Masses K}

theorem counted_le_total (m : Masses K) : m.counted ≤ m.total :=
  add_le_add (add_le_add (min_le_left _ _) (min_le_left _ _)) (min_le_left _ _)

theorem counted_eq_total_or (h : m.Nonneg) : m.counted = m.total ∨ 1 ≤ m.counted := by
  obtain ⟨hb, hd, hu⟩ := h
  have count {v : K} (nonneg : 0 ≤ v) : 0 ≤ min v 1 := le_min nonneg zero_le_one
  unfold counted total
  rcases le_total m.belief 1 with b | b
  · rcases le_total m.disbelief 1 with d | d
    · rcases le_total m.uncertainty 1 with u | u
      · left
        rw [min_eq_left b, min_eq_left d, min_eq_left u]
      · right
        rw [min_eq_right u]
        linarith [count hb, count hd]
    · right
      rw [min_eq_right d]
      linarith [count hb, count hu]
  · right
    rw [min_eq_right b]
    linarith [count hd, count hu]

/-- Counting masses up to one does not lead further off. -/
theorem abs_counted_le (h : m.Nonneg) : |m.counted - 1| ≤ |m.total - 1| := by
  rcases counted_eq_total_or h with same | above
  · rw [same]
  · rw [abs_of_nonneg (sub_nonneg.2 above)]
    exact (sub_le_sub_right m.counted_le_total 1).trans (le_abs_self _)

/-- Masses are settled to an opinion exactly where they make up one unit within the tolerance. -/
theorem exists_settle_iff (h : m.Nonneg) (a : K) :
    (∃ o, settle m.belief m.disbelief m.uncertainty a = .ok o) ↔ |m.counted - 1| ≤ tolerance := by
  have settled_eq (v : K) : settled v = Scalar.clampUnit v := if_pos rfl
  have faultless : fault? (settled m.belief) (settled m.disbelief) (settled m.uncertainty)
      (settled a) = none ↔ |m.counted - 1| ≤ tolerance := by
    simp only [settled_eq, fault?_eq_none_iff, Scalar.clampUnit_inUnit, true_and]
    rw [Scalar.clampUnit_of_nonneg h.belief, Scalar.clampUnit_of_nonneg h.disbelief,
      Scalar.clampUnit_of_nonneg h.uncertainty, counted]
  rw [← faultless]
  exact exists_make_iff

end Masses

namespace Operation

theorem masses_nonneg (op : Operation K) : op.masses.Nonneg := by
  cases op with
  | fusion x y =>
    obtain ⟨bx, dx, ux, -, -⟩ := x.bounds
    obtain ⟨by', dy, uy, -, -⟩ := y.bounds
    simp only [masses]
    split
    · exact ⟨(inUnit_halfSum bx by').1, (inUnit_halfSum dx dy).1, le_rfl⟩
    · next apart =>
      have positive := (cumulativeTotal_pos (by simpa using apart)).le
      exact ⟨div_nonneg (add_nonneg (mul_nonneg bx.1 uy.1) (mul_nonneg by'.1 ux.1)) positive,
        div_nonneg (add_nonneg (mul_nonneg dx.1 uy.1) (mul_nonneg dy.1 ux.1)) positive,
        div_nonneg (mul_nonneg ux.1 uy.1) positive⟩
  | discount trust subject =>
    obtain ⟨bt, dt, ut, -, -⟩ := trust.bounds
    obtain ⟨bs, ds, us, -, -⟩ := subject.bounds
    exact ⟨mul_nonneg bt.1 bs.1, mul_nonneg bt.1 ds.1,
      add_nonneg (add_nonneg dt.1 ut.1) (mul_nonneg bt.1 us.1)⟩
  | deduction x positive negative =>
    obtain ⟨bp, dp, up, -, -⟩ := positive.bounds
    obtain ⟨bn, dn, un, -, -⟩ := negative.bounds
    exact ⟨mix_nonneg x bp.1 bn.1, mix_nonneg x dp.1 dn.1, mix_nonneg x up.1 un.1⟩

theorem total_masses (op : Operation K) : op.masses.total = 1 + op.excess := by
  cases op with
  | fusion x y =>
    simp only [masses, excess]
    split
    · simp only [Masses.total, Scalar.halfSum, Opinion.excess, Nat.cast_ofNat]
      ring
    · next apart =>
      have positive := (cumulativeTotal_pos (by simpa using apart)).ne'
      rw [Masses.total, ← add_div, ← add_div, div_eq_iff positive, add_mul,
        div_mul_cancel₀ _ positive]
      simp only [cumulativeTotal, Opinion.excess]
      ring
  | discount trust subject =>
    simp only [masses, excess, Masses.total, Opinion.excess]
    ring
  | deduction x positive negative =>
    simp only [masses, excess, Masses.total, Opinion.excess, mix]
    ring

/-- An operation succeeds exactly where the masses it computes meet the tolerance. -/
theorem exists_run_iff (op : Operation K) :
    (∃ o, op.run = .ok o) ↔ |op.masses.counted - 1| ≤ tolerance := by
  obtain ⟨a, settled⟩ := op.run_eq_settle
  rw [settled]
  exact Masses.exists_settle_iff op.masses_nonneg a

/-- It does so where its operands are off by amounts that cancel within the tolerance. -/
theorem exists_run_of_excess {op : Operation K} (h : |op.excess| ≤ tolerance) :
    ∃ o, op.run = .ok o := by
  have near : |op.masses.total - 1| ≤ tolerance := by rwa [total_masses, add_sub_cancel_left]
  exact op.exists_run_iff.2 ((Masses.abs_counted_le op.masses_nonneg).trans near)

section
variable {slack : K}

theorem abs_mul_le_mul {w e : K} (nonneg : 0 ≤ w) (h : |e| ≤ slack) : |w * e| ≤ w * slack := by
  rw [abs_mul, abs_of_nonneg nonneg]
  exact mul_le_mul_of_nonneg_left h nonneg

theorem abs_excess_fusion_of_dogmatic {x y : Opinion K}
    (both : x.isDogmatic = true ∧ y.isDogmatic = true) (hx : |x.excess| ≤ slack)
    (hy : |y.excess| ≤ slack) : |(fusion x y).excess| ≤ slack + Scalar.epsilon := by
  have certain : x.uncertainty ≤ Scalar.epsilon := of_decide_eq_true both.1
  have certain' : y.uncertainty ≤ Scalar.epsilon := of_decide_eq_true both.2
  have ux := x.bounds.uncertainty.1
  have uy := y.bounds.uncertainty.1
  obtain ⟨lowx, highx⟩ := abs_le.1 hx
  obtain ⟨lowy, highy⟩ := abs_le.1 hy
  rw [excess, if_pos (by simpa using both), Scalar.halfSum, Nat.cast_ofNat, abs_le]
  constructor <;> linarith

theorem abs_excess_fusion {x y : Opinion K}
    (apart : ¬ (x.isDogmatic = true ∧ y.isDogmatic = true)) (hx : |x.excess| ≤ slack)
    (hy : |y.excess| ≤ slack) : |(fusion x y).excess| ≤ 2 * slack := by
  have positive := cumulativeTotal_pos apart
  have ux := x.bounds.uncertainty
  have uy := y.bounds.uncertainty
  have weights : y.uncertainty + x.uncertainty ≤ 2 * cumulativeTotal x y := by
    have less := mul_nonneg ux.1 (sub_nonneg.2 uy.2)
    have less' := mul_nonneg uy.1 (sub_nonneg.2 ux.2)
    rw [cumulativeTotal]
    linarith
  rw [excess, if_neg (by simpa using apart), abs_div, abs_of_pos positive, div_le_iff₀ positive,
    mul_comm x.excess, mul_comm y.excess]
  calc |y.uncertainty * x.excess + x.uncertainty * y.excess|
      ≤ y.uncertainty * slack + x.uncertainty * slack :=
        (abs_add_le _ _).trans (add_le_add (abs_mul_le_mul uy.1 hx) (abs_mul_le_mul ux.1 hy))
    _ = (y.uncertainty + x.uncertainty) * slack := (add_mul _ _ _).symm
    _ ≤ 2 * cumulativeTotal x y * slack :=
        mul_le_mul_of_nonneg_right weights ((abs_nonneg _).trans hx)
    _ = 2 * slack * cumulativeTotal x y := by ring

theorem abs_excess_discount {trust subject : Opinion K} (ht : |trust.excess| ≤ slack)
    (hs : |subject.excess| ≤ slack) : |(discount trust subject).excess| ≤ 2 * slack := by
  have bt := trust.bounds.belief
  calc |trust.excess + trust.belief * subject.excess|
      ≤ slack + trust.belief * slack :=
        (abs_add_le _ _).trans (add_le_add ht (abs_mul_le_mul bt.1 hs))
    _ ≤ slack + slack :=
        add_le_add_right (mul_le_of_le_one_left ((abs_nonneg _).trans ht) bt.2) slack
    _ = 2 * slack := (two_mul slack).symm

/-- The conditionals share out the masses of the antecedent, which exceed one unit themselves. -/
theorem abs_excess_deduction {x positive negative : Opinion K} (hx : |x.excess| ≤ slack)
    (hp : |positive.excess| ≤ slack) (hn : |negative.excess| ≤ slack) :
    |(deduction x positive negative).excess| ≤ (1 + slack) ^ 2 - 1 := by
  obtain ⟨bx, dx, ux, ax, -⟩ := x.bounds
  have held := add_nonneg bx.1 (mul_nonneg ux.1 ax.1)
  have denied := add_nonneg dx.1 (mul_nonneg ux.1 (sub_nonneg.2 ax.2))
  calc |x.excess + (x.belief + x.uncertainty * x.baseRate) * positive.excess +
        (x.disbelief + x.uncertainty * (1 - x.baseRate)) * negative.excess|
      ≤ slack + (x.belief + x.uncertainty * x.baseRate) * slack +
          (x.disbelief + x.uncertainty * (1 - x.baseRate)) * slack :=
        (abs_add_le _ _).trans (add_le_add ((abs_add_le _ _).trans
          (add_le_add hx (abs_mul_le_mul held hp))) (abs_mul_le_mul denied hn))
    _ = slack + (1 + x.excess) * slack := by
        rw [Opinion.excess]
        ring
    _ ≤ slack + (1 + slack) * slack := by
        gcongr
        · exact (abs_nonneg _).trans hx
        · exact (le_abs_self _).trans hx
    _ = (1 + slack) ^ 2 - 1 := by ring

end

theorem two_mul_epsilon_le_tolerance : 2 * (Scalar.epsilon : K) ≤ tolerance := by
  unfold Scalar.epsilon tolerance Scalar.oneOver
  norm_num

/-- Operands that are off by less than about half of the tolerance are not refused. -/
theorem abs_excess_le_of_slack {op : Operation K} {slack : K}
    (small : (1 + slack) ^ 2 ≤ 1 + tolerance) (near : ∀ o ∈ op.operands, |o.excess| ≤ slack) :
    |op.excess| ≤ tolerance := by
  have twice : 2 * slack ≤ tolerance := by linarith [sq_nonneg slack, add_sq 1 slack]
  cases op with
  | fusion x y =>
    obtain ⟨hx, hy, -⟩ := by simpa only [operands, List.forall_mem_cons] using near
    by_cases both : x.isDogmatic = true ∧ y.isDogmatic = true
    · have dropped := abs_excess_fusion_of_dogmatic both hx hy
      linarith [two_mul_epsilon_le_tolerance (K := K)]
    · exact (abs_excess_fusion both hx hy).trans twice
  | discount trust subject =>
    obtain ⟨ht, hs, -⟩ := by simpa only [operands, List.forall_mem_cons] using near
    exact (abs_excess_discount ht hs).trans twice
  | deduction x positive negative =>
    obtain ⟨hx, hp, hn, -⟩ := by simpa only [operands, List.forall_mem_cons] using near
    exact (abs_excess_deduction hx hp hn).trans (by linarith)

end Operation

/-- Fusion, discount and deduction of opinions succeed exactly where the masses that they compute,
each counted up to one, make up one unit within the tolerance. What these masses are off by is what
the operands are off by, carried over; so the operations succeed where that is within the tolerance,
and where each operand is off by less than about half of it. -/
theorem operation_succeeds_iff (op : Operation K) :
    ((∃ o, op.run = .ok o) ↔ |op.masses.counted - 1| ≤ tolerance) ∧
      op.masses.total = 1 + op.excess ∧
      (|op.excess| ≤ tolerance → ∃ o, op.run = .ok o) ∧
      ∀ slack, (1 + slack) ^ 2 ≤ 1 + tolerance → (∀ o ∈ op.operands, |o.excess| ≤ slack) →
        ∃ o, op.run = .ok o := by
  refine ⟨op.exists_run_iff, op.total_masses, Operation.exists_run_of_excess, ?_⟩
  intro slack small near
  exact Operation.exists_run_of_excess (Operation.abs_excess_le_of_slack small near)

def eased : Opinion ℚ := ⟨1 / 2, 4 / 10000000000, 1 / 2, 1 / 2, by decide +kernel⟩

/-- No operation on this opinion is refused: for fusion what is carried over says so, for discount
and deduction what each operand is off by. -/
theorem operation_succeeds_iff_eased :
    (∃ o, cumulativePair eased eased = .ok o) ∧ (∃ o, Opinion.discount eased eased = .ok o) ∧
      ∃ o, deduce eased eased eased = .ok o := by
  have small : (1 + eased.excess) ^ 2 ≤ 1 + tolerance := by decide +kernel
  have near : |eased.excess| ≤ eased.excess := by decide +kernel
  refine ⟨?_, ?_, ?_⟩
  · exact (operation_succeeds_iff (.fusion eased eased)).2.2.1 (by decide +kernel)
  · exact (operation_succeeds_iff (.discount eased eased)).2.2.2 _ small
      (by simpa [Operation.operands] using near)
  · exact (operation_succeeds_iff (.deduction eased eased eased)).2.2.2 _ small
      (by simpa [Operation.operands] using near)

def strained : Opinion ℚ := ⟨1 / 2, 9 / 10000000000, 1 / 2, 1 / 2, by decide +kernel⟩

/-- Every operation on this opinion is refused, although the opinion is valid. -/
theorem strained_refused :
    (¬ ∃ o, cumulativePair strained strained = .ok o) ∧
      (¬ ∃ o, Opinion.discount strained strained = .ok o) ∧
      ¬ ∃ o, deduce strained strained strained = .ok o := by
  refine ⟨?_, ?_, ?_⟩
  · exact (Operation.fusion strained strained).exists_run_iff.not.2 (by decide +kernel)
  · exact (Operation.discount strained strained).exists_run_iff.not.2 (by decide +kernel)
  · exact (Operation.deduction strained strained strained).exists_run_iff.not.2 (by decide +kernel)

end Opinion
end Credence
