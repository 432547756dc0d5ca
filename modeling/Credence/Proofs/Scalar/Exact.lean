import Mathlib.Algebra.Order.Field.Basic
import Mathlib.Algebra.BigOperators.Group.List.Basic
import Mathlib.Algebra.Order.BigOperators.Ring.List
import Mathlib.Tactic.Linarith
import Credence.Scalar

/-! # Exact scalars

In a linearly ordered field scalars are computed without rounding. Every value is finite, the rank
of two values is their order, and sums and products do not depend on the order of their terms.
-/

namespace Credence.Scalar
variable {K : Type} [Field K] [LinearOrder K]

instance exact : Scalar K where
  decidableLE := inferInstance
  decidableLT := inferInstance
  isFinite _ := true
  rank := compare

instance : Std.TransCmp (rank (R := K)) :=
  inferInstanceAs (Std.TransCmp (compare : K → K → Ordering))

instance partialEquivBEq : PartialEquivBEq K :=
  inferInstanceAs (@PartialEquivBEq K instBEqOfDecidableEq)

theorem beq_eq_decide (a b : K) : (a == b) = decide (a = b) := rfl

theorem inUnit_iff {a : K} : InUnit a ↔ 0 ≤ a ∧ a ≤ 1 := Iff.rfl

theorem foldl_add_eq (values : List K) (start : K) :
    values.foldl (· + ·) start = start + List.sum values := by
  induction values generalizing start with
  | nil => simp
  | cons v rest ih => rw [List.foldl_cons, ih, List.sum_cons, add_assoc]

theorem sum_eq (values : List K) : sum values = List.sum values := by
  change values.foldl (· + ·) (-0) = _
  rw [foldl_add_eq, neg_zero, zero_add]

theorem product_eq (values : List K) : product values = List.prod values :=
  List.prod_eq_foldl.symm

theorem larger_eq_max (a b : K) : larger a b = max a b := (max_def_lt a b).symm

theorem smaller_eq_min (a b : K) : smaller a b = min a b :=
  (min_def_lt b a).symm.trans (min_comm b a)

theorem notBelowZero_eq (a : K) : notBelowZero a = max 0 a := (max_def_lt 0 a).symm

theorem clamp_eq (low high a : K) : clamp low high a = min high (max a low) := by
  rw [min_def_lt, max_def_lt]
  rfl

theorem clampUnit_eq (a : K) : clampUnit a = min 1 (max a 0) := clamp_eq 0 1 a

theorem clampUnit_monotone : Monotone (clampUnit : K → K) := by
  intro a b below
  rw [clampUnit_eq, clampUnit_eq]
  exact min_le_min_left 1 (max_le_max_right 0 below)

theorem clampUnit_of_inUnit {a : K} (h : InUnit a) : clampUnit a = a := by
  rw [clampUnit_eq, max_eq_left h.1, min_eq_right h.2]

variable [IsStrictOrderedRing K]

theorem clampUnit_inUnit (a : K) : InUnit (clampUnit a) := by
  rw [clampUnit_eq]
  exact ⟨le_min zero_le_one (le_max_right a 0), min_le_left 1 _⟩

theorem inUnit_complement {a : K} (h : InUnit a) : InUnit (1 - a) :=
  ⟨sub_nonneg.2 h.2, sub_le_self 1 h.1⟩

theorem inUnit_mul {a b : K} (ha : InUnit a) (hb : InUnit b) : InUnit (a * b) :=
  ⟨mul_nonneg ha.1 hb.1, mul_le_one₀ ha.2 hb.1 hb.2⟩

/-- One or the other of two masses is no less than either. -/
theorem le_add_sub_mul {a b : K} (ha : InUnit a) (hb : InUnit b) :
    a ≤ a + b - a * b ∧ b ≤ a + b - a * b := by
  have less : a * b ≤ a := mul_le_of_le_one_right ha.1 hb.2
  have less' : a * b ≤ b := mul_le_of_le_one_left hb.1 ha.2
  constructor <;> linarith

theorem mul_div_add_sub_mul_le {a b : K} (ha : InUnit a) (hb : InUnit b)
    (positive : 0 < a + b - a * b) : a * b / (a + b - a * b) ≤ a :=
  (div_le_iff₀ positive).2 (mul_le_mul_of_nonneg_left (le_add_sub_mul ha hb).2 ha.1)

theorem inUnit_prod {values : List K} (units : ∀ v ∈ values, InUnit v) :
    InUnit (List.prod values) := by
  induction values with
  | nil => exact ⟨zero_le_one, le_rfl⟩
  | cons v rest ih =>
    obtain ⟨unit, units⟩ := List.forall_mem_cons.1 units
    rw [List.prod_cons]
    exact inUnit_mul unit (ih units)

theorem prod_le_of_mem {values : List K} (units : ∀ v ∈ values, InUnit v) {v : K}
    (among : v ∈ values) : List.prod values ≤ v := by
  have others : InUnit (values.erase v).prod :=
    inUnit_prod (fun w hw => units w (List.mem_of_mem_erase hw))
  rw [← List.prod_erase among]
  exact mul_le_of_le_one_right (units v among).1 others.2

end Credence.Scalar
