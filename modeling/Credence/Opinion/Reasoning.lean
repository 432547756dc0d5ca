import Credence.Opinion.Basic

/-! # Discount and deduction

Trust in a source discounts what it says: the mass that trust does not believe in becomes
uncertain. Deduction mixes two conditional opinions by an opinion on their antecedent.
-/

namespace Credence.Opinion
variable {R : Type} [Scalar R]

/-- An opinion as it comes through a source that is trusted so far. -/
def discount (trust subject : Opinion R) : Except (Error R) (Opinion R) :=
  settle (trust.belief * subject.belief) (trust.belief * subject.disbelief)
    (trust.disbelief + trust.uncertainty + trust.belief * subject.uncertainty) subject.baseRate

/-- The mixture of two numbers by belief and disbelief in an antecedent, its uncertain mass shared
out by its base rate. -/
def mix (x : Opinion R) (positive negative : R) : R :=
  x.belief * positive + x.disbelief * negative +
    x.uncertainty * (x.baseRate * positive + (1 - x.baseRate) * negative)

/-- The opinion on a consequent, from an opinion on its antecedent and the opinions on it given
that the antecedent holds and that it does not. -/
def deduce (x positive negative : Opinion R) : Except (Error R) (Opinion R) :=
  settle (x.mix positive.belief negative.belief) (x.mix positive.disbelief negative.disbelief)
    (x.mix positive.uncertainty negative.uncertainty)
    (x.baseRate * positive.projected + (1 - x.baseRate) * negative.projected)

end Credence.Opinion
