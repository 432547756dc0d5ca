import Credence.Proofs.Assertion
import Credence.Proofs.Graph.Sameness
import Credence.Proofs.Scalar.Arithmetic
import Credence.Scalar.Binary64

/-! # Double-precision numbers of a document

Every score of double precision is finite, so that a document has a number for it. Equality is
symmetric and transitive, and every finite number equals itself.
-/

namespace Credence.Binary64
open Float.Model

/-- What lies between finite numbers is finite: an infinite number lies outside on its side. -/
theorem unpacked_isFinite_of_le {low u high : UnpackedFloat} (lowFinite : low.isFinite = true)
    (highFinite : high.isFinite = true) (above : low.le u = true) (below : u.le high = true) :
    u.isFinite = true := by
  cases u with
  | zero sign => rfl
  | finite sign mantissa exponent positive => rfl
  | notANumber => cases below
  | infinity sign =>
    cases sign with
    | positive =>
      cases high with
      | zero sign => cases below
      | finite sign mantissa exponent positive => cases below
      | notANumber => cases highFinite
      | infinity sign => cases highFinite
    | negative =>
      cases low with
      | zero sign => cases above
      | finite sign mantissa exponent positive => cases above
      | notANumber => cases lowFinite
      | infinity sign => cases lowFinite

theorem unpacked_beq_self {u : UnpackedFloat} (finite : u.isFinite = true) : u.beq u = true := by
  cases u with
  | zero sign => rfl
  | finite sign mantissa exponent positive =>
    cases sign <;> simp [UnpackedFloat.beq, UnpackedFloat.compare]
  | notANumber => cases finite
  | infinity sign => cases finite

/-- A number with zero of one sign only. -/
def unsignedZero (u : UnpackedFloat) : UnpackedFloat :=
  match u with
  | .zero _ => .zero .positive
  | u => u

/-- Numbers are equal that are defined and the same but for the sign of zero. -/
theorem unpacked_beq_iff {u v : UnpackedFloat} :
    u.beq v = true ↔ unsignedZero u ≠ .notANumber ∧ unsignedZero u = unsignedZero v := by
  unfold UnpackedFloat.beq UnpackedFloat.compare unsignedZero
  cases u with
  | notANumber => simp
  | zero s =>
    cases v with
    | finite s' m e positive | infinity s' => cases s' <;> simp
    | notANumber | zero s' => simp
  | infinity s =>
    cases v with
    | infinity s' => cases s <;> cases s' <;> simp <;> rfl
    | notANumber | zero s' | finite s' m e positive => cases s <;> simp
  | finite s m e positive =>
    cases v with
    | finite s' m' e' positive' => cases s <;> cases s' <;> simp [and_comm]
    | infinity s' => cases s' <;> simp
    | notANumber | zero s' => cases s <;> simp

/-- Equality is symmetric and transitive, though an undefined number is not equal to itself. -/
instance partialEquivBEq : PartialEquivBEq Float where
  symm {x y} same := by
    obtain ⟨defined, same⟩ := unpacked_beq_iff.1 same
    exact unpacked_beq_iff.2 ⟨same ▸ defined, same.symm⟩
  trans {x y z} same same' := by
    obtain ⟨defined, same⟩ := unpacked_beq_iff.1 same
    obtain ⟨-, same'⟩ := unpacked_beq_iff.1 same'
    exact unpacked_beq_iff.2 ⟨defined, same.trans same'⟩

theorem scoresFinite : ScoresFinite Float := by
  intro c unit
  have above : (0 : Float) ≤ c := unit.1
  have below : c ≤ (1 : Float) := unit.2
  exact unpacked_isFinite_of_le rfl rfl (le_iff.1 above) (le_iff.1 below)

theorem definite_of_isFinite {l : Literal Float}
    (finite : ∀ x, l = .number (.scalar x) → Scalar.isFinite x = true) : l.Definite := by
  intro x same
  have finite : x.toModel.unpack.isFinite = true := finite x same
  exact unpacked_beq_self finite

end Credence.Binary64
