import Mathlib.Algebra.Order.Field.Basic
import Credence.Proofs.Scalar.Exact

/-! # Division that may fail

In a field a number divided by zero is zero, which no program relies on. Guarded numbers are those
of a field and one more, which a division by zero gives and which no operation loses: whatever is
computed of it is undefined too, it is not finite, and it compares with nothing. A computation that
arrives at the same number with guarded numbers as in the field divides by zero nowhere on its way.
-/

namespace Credence

/-- The numbers of a field, and what a division by zero gives. -/
inductive Guarded (K : Type) where
  | number (value : K)
  | undefined

namespace Guarded
variable {K : Type}

def lift (f : K → K → K) : Guarded K → Guarded K → Guarded K
  | number a, number b => number (f a b)
  | _, _ => undefined

/-- A relation between two numbers, which an undefined one stands in with none. -/
def Both (r : K → K → Prop) : Guarded K → Guarded K → Prop
  | number a, number b => r a b
  | _, _ => False

instance Both.decide (r : K → K → Prop) [DecidableRel r] : DecidableRel (Both r)
  | number a, number b => inferInstanceAs (Decidable (r a b))
  | number _, undefined => isFalse id
  | undefined, _ => isFalse id

theorem foldl_number (f : K → K → K) (f' : Guarded K → Guarded K → Guarded K)
    (each : ∀ a b, f' (number a) (number b) = number (f a b)) (values : List K) (start : K) :
    (values.map number).foldl f' (number start) = number (values.foldl f start) := by
  rw [List.foldl_map, List.foldl_hom number (fun a b => each a b)]

theorem scanl_number (f : K → K → K) (f' : Guarded K → Guarded K → Guarded K)
    (each : ∀ a b, f' (number a) (number b) = number (f a b)) (values : List K) (start : K) :
    (values.map number).scanl f' (number start) = (values.scanl f start).map number := by
  induction values generalizing start with
  | nil => simp
  | cons value rest ih => simp [each, ih]

variable [Field K] [LinearOrder K]

instance scalar : Scalar (Guarded K) where
  add := lift (· + ·)
  sub := lift (· - ·)
  mul := lift (· * ·)
  div
    | number a, number b => if b = 0 then undefined else number (a / b)
    | _, _ => undefined
  neg
    | number a => number (-a)
    | undefined => undefined
  zero := number 0
  one := number 1
  natCast n := number n
  intCast n := number n
  le := Both (· ≤ ·)
  lt := Both (· < ·)
  beq a b := decide (Both (· = ·) a b)
  decidableLE := Both.decide _
  decidableLT := Both.decide _
  isFinite
    | number _ => true
    | undefined => false
  rank
    | number a, number b => compare a b
    | number _, undefined => .lt
    | undefined, number _ => .gt
    | undefined, undefined => .eq

theorem div_zero (a : Guarded K) : a / 0 = undefined := by
  cases a with
  | number a => exact if_pos rfl
  | undefined => rfl

section
variable (a b : K)

@[simp] theorem zero_eq : (0 : Guarded K) = number 0 := rfl

@[simp] theorem one_eq : (1 : Guarded K) = number 1 := rfl

@[simp] theorem natCast_eq (n : ℕ) : (Nat.cast n : Guarded K) = number (Nat.cast n) := rfl

@[simp] theorem number_add : number a + number b = number (a + b) := rfl

@[simp] theorem number_sub : number a - number b = number (a - b) := rfl

@[simp] theorem number_mul : number a * number b = number (a * b) := rfl

@[simp] theorem neg_number : -number a = number (-a) := rfl

@[simp] theorem number_le : number a ≤ number b ↔ a ≤ b := Iff.rfl

@[simp] theorem number_lt : number a < number b ↔ a < b := Iff.rfl

@[simp] theorem isFinite_number : Scalar.isFinite (number a) = true := rfl

variable {b}

theorem number_div (h : b ≠ 0) : number a / number b = number (a / b) := if_neg h

end

@[simp] theorem inUnit_number {a : K} : Scalar.InUnit (number a) ↔ Scalar.InUnit a := Iff.rfl

@[simp] theorem clampUnit_number (a : K) :
    Scalar.clampUnit (number a) = number (Scalar.clampUnit a) := by
  simp only [Scalar.clampUnit, Scalar.clamp, zero_eq, one_eq, number_lt, ← apply_ite number]

@[simp] theorem abs_number (a : K) : Scalar.abs (number a) = number (Scalar.abs a) := by
  simp only [Scalar.abs, zero_eq, number_lt, neg_number, ← apply_ite number]

@[simp] theorem sum_number (values : List K) :
    Scalar.sum (values.map number) = number (Scalar.sum values) :=
  foldl_number _ _ number_add values _

@[simp] theorem product_number (values : List K) :
    Scalar.product (values.map number) = number (Scalar.product values) :=
  foldl_number _ _ number_mul values _

variable [IsStrictOrderedRing K]

theorem oneOver_number {n : ℕ} (positive : 0 < n) :
    (Scalar.oneOver n : Guarded K) = number (Scalar.oneOver n) :=
  number_div 1 (Nat.cast_pos.2 positive).ne'

@[simp] theorem epsilon_number : (Scalar.epsilon : Guarded K) = number Scalar.epsilon :=
  oneOver_number (by decide)

theorem mean_number {values : List K} (some : values ≠ []) :
    Scalar.mean (values.map number) = number (Scalar.mean values) := by
  have count : (values.length : K) ≠ 0 :=
    (Nat.cast_pos.2 (List.length_pos_iff.2 some)).ne'
  rw [Scalar.mean, sum_number, List.length_map, natCast_eq, number_div _ count, Scalar.mean]

end Guarded
end Credence
