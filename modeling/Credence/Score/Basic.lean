import Credence.Error.Basic

/-! # Scores

A score lies between zero and one, both included.
-/

namespace Credence
variable {R : Type} [Scalar R]

/-- Passes a score and refuses any other value. -/
def checkScore (role : ScoreRole) (value : R) : Except (ValidationError R) Unit :=
  if Scalar.InUnit value then .ok () else .error (.scoreOutOfRange role value)

theorem checkScore_eq_ok_iff {role : ScoreRole} {value : R} :
    checkScore role value = .ok () ↔ Scalar.InUnit value := by
  unfold checkScore
  split <;> simp_all

end Credence
