import Credence.Opinion.Basic
import Credence.Vocabulary

/-! # Fusion

Cumulative fusion adds up independent evidence, two opinions at a time from left to right.
Averaging fusion takes a mean of dependent opinions at once: each is weighted by the product of
the uncertainties of all others, so the more certain an opinion is the more it counts. Where the
weights vanish the certain opinions are averaged plainly, or all of them if none is certain.
-/

namespace Credence
variable {R : Type} [Scalar R]

def Scalar.halfSum (a b : R) : R := (a + b) / ((2 : Nat) : R)

namespace Opinion

/-- What cumulative fusion of two opinions divides by. -/
def cumulativeTotal (x y : Opinion R) : R :=
  x.uncertainty + y.uncertainty - x.uncertainty * y.uncertainty

def cumulativePair (x y : Opinion R) : Except (Error R) (Opinion R) :=
  let baseRate := Scalar.halfSum x.baseRate y.baseRate
  if x.isDogmatic && y.isDogmatic then
    settle (Scalar.halfSum x.belief y.belief) (Scalar.halfSum x.disbelief y.disbelief) 0 baseRate
  else
    let total := cumulativeTotal x y
    settle ((x.belief * y.uncertainty + y.belief * x.uncertainty) / total)
      ((x.disbelief * y.uncertainty + y.disbelief * x.uncertainty) / total)
      ((x.uncertainty * y.uncertainty) / total) baseRate

def cumulativeFuse : List (Opinion R) → Except (Error R) (Opinion R)
  | [] => .error (.validation (.emptyInput .opinionsToFuse))
  | first :: rest => rest.foldlM cumulativePair first

def averagingPair (x y : Opinion R) : Except (Error R) (Opinion R) :=
  let baseRate := Scalar.halfSum x.baseRate y.baseRate
  let total := x.uncertainty + y.uncertainty
  if total ≤ Scalar.epsilon then
    settle (Scalar.halfSum x.belief y.belief) (Scalar.halfSum x.disbelief y.disbelief)
      (total / ((2 : Nat) : R)) baseRate
  else
    settle ((x.belief * y.uncertainty + y.belief * x.uncertainty) / total)
      ((x.disbelief * y.uncertainty + y.disbelief * x.uncertainty) / total)
      (((2 : Nat) : R) * x.uncertainty * y.uncertainty / total) baseRate

/-- For each place the product of the values in front of it, and last the product of all. -/
def productsBefore (values : List R) : List R := values.scanl (· * ·) 1

/-- For each place the product of the values from it on, multiplied up from the end, and last the
empty product. -/
def productsFrom (values : List R) : List R := values.scanr (fun value tail => tail * value) 1

/-- For each value the product of all others, without a division: what stands in front of it by
what comes after it. -/
def leaveOneOut (values : List R) : List R :=
  List.zipWith (· * ·) (productsBefore values) (productsFrom values).tail

def plainMean (pool : List (Opinion R)) (baseRate : R) : Except (Error R) (Opinion R) :=
  settle (Scalar.mean (pool.map Opinion.belief)) (Scalar.mean (pool.map Opinion.disbelief))
    (Scalar.mean (pool.map Opinion.uncertainty)) baseRate

/-- The weight of each opinion: the product of the uncertainties of all others. -/
def averagingWeights (opinions : List (Opinion R)) : List R :=
  leaveOneOut (opinions.map Opinion.uncertainty)

def weightedSum (component : Opinion R → R) (opinions : List (Opinion R)) : R :=
  Scalar.sum (List.zipWith (fun o weight => component o * weight) opinions
    (averagingWeights opinions))

def averagingMany (opinions : List (Opinion R)) : Except (Error R) (Opinion R) :=
  let baseRate := Scalar.mean (opinions.map Opinion.baseRate)
  let total := Scalar.sum (averagingWeights opinions)
  if total ≤ Scalar.epsilon then
    let certain := opinions.filter isDogmatic
    plainMean (if certain.isEmpty then opinions else certain) baseRate
  else
    settle (weightedSum Opinion.belief opinions / total)
      (weightedSum Opinion.disbelief opinions / total)
      ((opinions.length : R) * Scalar.product (opinions.map Opinion.uncertainty) / total) baseRate

def averagingFuse : List (Opinion R) → Except (Error R) (Opinion R)
  | [] => .error (.validation (.emptyInput .opinionsToFuse))
  | [single] => .ok single
  | [x, y] => averagingPair x y
  | opinions => averagingMany opinions

end Opinion

inductive Fusion where
  | cumulative
  | averaging
deriving DecidableEq, Repr

namespace Fusion

def name : Fusion → String
  | .cumulative => "cumulative"
  | .averaging => "averaging"

instance : Named Fusion where
  kind := "fusion kind"
  all := [.cumulative, .averaging]
  name := Fusion.name
  listing := Named.commaListing ["cumulative", "averaging"]

instance : Inhabited Fusion := ⟨.cumulative⟩

def fuse (kind : Fusion) (opinions : List (Opinion R)) : Except (Error R) (Opinion R) :=
  match kind with
  | .cumulative => Opinion.cumulativeFuse opinions
  | .averaging => Opinion.averagingFuse opinions

end Fusion
end Credence
