import Mathlib.Analysis.SpecialFunctions.Pow.Real
import Credence.Proofs.Scalar.Exact

/-! # Elementary functions of real numbers -/

namespace Credence.Scalar

noncomputable instance real : Elementary ℝ where
  exp := Real.exp
  log := Real.log
  exp2 x := 2 ^ x
  sqrt := Real.sqrt
  pow x y := x ^ y

open Elementary (exp2)

theorem exp2_add (x y : ℝ) : exp2 (x + y) = exp2 x * exp2 y := Real.rpow_add two_pos x y

theorem exp2_monotone : Monotone (exp2 : ℝ → ℝ) :=
  fun _ _ below => Real.rpow_le_rpow_of_exponent_le one_le_two below

theorem inUnit_exp2 {x : ℝ} (nonpos : x ≤ 0) : InUnit (exp2 x) :=
  ⟨(Real.rpow_pos_of_pos two_pos x).le, Real.rpow_le_one_of_one_le_of_nonpos one_le_two nonpos⟩

end Credence.Scalar
