import Mathlib.Algebra.Order.Field.Basic
import Credence.Opinion.Reasoning
import Credence.Proofs.Opinion.Wholeness
import Credence.Proofs.Scalar.Guarded

/-! # Opinions without a division by zero

Every division on the way to an opinion goes into one of its components, and no opinion has an
undefined component. So an operation that arrives at the same opinion with guarded numbers as in the
field has divided by zero nowhere. Fusion and discounts do so on all opinions: what fusion divides
by exceeds the rounding unit, or counts opinions of which there is one at least.
-/

namespace Credence.Opinion
open Guarded (number)
open Scalar (InUnit)
variable {K : Type} [Field K] [LinearOrder K]

theorem componentFault?_number {component : Component} {v : K} :
    componentFault? component (number v) = none ↔ componentFault? component v = none := by
  rw [componentFault?_eq_none_iff]
  simp [componentFault?]

theorem exists_number {component : Component} {v : Guarded K}
    (h : componentFault? component v = none) : ∃ a, v = number a := by
  cases v with
  | number a => exact ⟨a, rfl⟩
  | undefined => cases h

@[simp] theorem settled_number (v : K) : settled (number v) = number (settled v) := by
  have finite : Scalar.isFinite v = true := rfl
  simp [settled, finite]

theorem checkScore_mirrors (role : ScoreRole) (v : K) :
    Mirrors id (validated (checkScore role v)) (validated (checkScore role (number v))) := by
  intro passed checked
  rw [validated_eq_ok_iff, checkScore_eq_ok_iff] at checked
  rwa [validated_eq_ok_iff, id, checkScore_eq_ok_iff, Guarded.inUnit_number]

variable [IsStrictOrderedRing K]

theorem sumFault?_number {b d u : K} :
    sumFault? (number b) (number d) (number u) = none ↔ sumFault? b d u = none := by
  have scale : (tolerance : Guarded K) = number tolerance := Guarded.oneOver_number (by decide)
  simp [sumFault?, scale]

theorem fault?_number {b d u a : K} :
    fault? (number b) (number d) (number u) (number a) = none ↔ fault? b d u a = none := by
  simp only [fault?, Option.orElse_eq_orElse, Option.orElse_eq_or, Option.or_eq_none_iff,
    componentFault?_number, sumFault?_number]

def guarded (o : Opinion K) : Opinion (Guarded K) where
  belief := number o.belief
  disbelief := number o.disbelief
  uncertainty := number o.uncertainty
  baseRate := number o.baseRate
  faultless := fault?_number.2 o.faultless

/-- No opinion has an undefined component. -/
theorem exists_guarded (o : Opinion (Guarded K)) : ∃ p : Opinion K, p.guarded = o := by
  obtain ⟨b, d, u, a, faultless⟩ := o
  have each := faultless
  simp only [fault?, Option.orElse_eq_orElse, Option.orElse_eq_or, Option.or_eq_none_iff] at each
  obtain ⟨b, rfl⟩ := exists_number each.1
  obtain ⟨d, rfl⟩ := exists_number each.2.1
  obtain ⟨u, rfl⟩ := exists_number each.2.2.1
  obtain ⟨a, rfl⟩ := exists_number each.2.2.2.1
  exact ⟨⟨b, d, u, a, fault?_number.1 faultless⟩, rfl⟩

section
variable (o : Opinion K)

@[simp] theorem guarded_belief : o.guarded.belief = number o.belief := rfl

@[simp] theorem guarded_disbelief : o.guarded.disbelief = number o.disbelief := rfl

@[simp] theorem guarded_uncertainty : o.guarded.uncertainty = number o.uncertainty := rfl

@[simp] theorem guarded_baseRate : o.guarded.baseRate = number o.baseRate := rfl

@[simp] theorem isDogmatic_guarded : o.guarded.isDogmatic = o.isDogmatic := by
  simp [isDogmatic]

end

theorem settle_mirrors (b d u a : K) :
    Mirrors guarded (settle b d u a) (settle (number b) (number d) (number u) (number a)) := by
  intro o made
  simp only [settle, settled_number] at made ⊢
  obtain ⟨hb, hd, hu, ha⟩ := components_of_make made
  rw [← hb, ← hd, ← hu, ← ha]
  exact make_eq_ok o.guarded.faultless

theorem halfSum_number (a b : K) :
    Scalar.halfSum (number a) (number b) = number (Scalar.halfSum a b) := by
  have two : (Nat.cast 2 : K) ≠ 0 := (Nat.cast_pos.2 (by decide)).ne'
  rw [Scalar.halfSum, Guarded.number_add, Guarded.natCast_eq, Guarded.number_div _ two,
    Scalar.halfSum]

theorem ofConfidence_mirrors (score u a : K) :
    Mirrors guarded (ofConfidence score u a)
      (ofConfidence (number score) (number u) (number a)) := by
  refine (checkScore_mirrors .confidence score).bind (fun _ => ?_)
  refine (checkScore_mirrors .uncertainty u).bind (fun _ => ?_)
  exact settle_mirrors _ _ _ _

theorem discount_mirrors (x y : Opinion K) :
    Mirrors guarded (discount x y) (discount x.guarded y.guarded) :=
  settle_mirrors _ _ _ _

theorem cumulativePair_mirrors (x y : Opinion K) :
    Mirrors guarded (cumulativePair x y) (cumulativePair x.guarded y.guarded) := by
  by_cases both : x.isDogmatic = true ∧ y.isDogmatic = true
  · simp [cumulativePair, both, halfSum_number, settle_mirrors]
  · have positive := (cumulativeTotal_pos both).ne'
    have total : cumulativeTotal x.guarded y.guarded = number (cumulativeTotal x y) := rfl
    simp [cumulativePair, both, total, halfSum_number, Guarded.number_div _ positive,
      settle_mirrors]

theorem cumulativeFuse_mirrors (opinions : List (Opinion K)) :
    Mirrors guarded (cumulativeFuse opinions) (cumulativeFuse (opinions.map guarded)) := by
  cases opinions with
  | nil =>
    intro z none
    cases none
  | cons first rest => exact .foldlM cumulativePair_mirrors rest first

theorem averagingPair_mirrors (x y : Opinion K) :
    Mirrors guarded (averagingPair x y) (averagingPair x.guarded y.guarded) := by
  have two : (Nat.cast 2 : K) ≠ 0 := (Nat.cast_pos.2 (by decide)).ne'
  simp only [averagingPair, guarded_belief, guarded_disbelief, guarded_uncertainty,
    guarded_baseRate, halfSum_number, Guarded.number_add, Guarded.number_mul, Guarded.natCast_eq,
    Guarded.epsilon_number, Guarded.number_le, Guarded.number_div _ two]
  split
  · exact settle_mirrors _ _ _ _
  · next weighty =>
    have total := (epsilon_pos.trans (not_le.1 weighty)).ne'
    simp only [Guarded.number_div _ total]
    exact settle_mirrors _ _ _ _

section
variable {opinions : List (Opinion K)} {p : Opinion K → K}
  {p' : Opinion (Guarded K) → Guarded K}

theorem map_guarded (each : ∀ o, p' (guarded o) = number (p o)) :
    (opinions.map guarded).map p' = (opinions.map p).map number := by
  simp [each]

theorem mean_guarded (some : opinions ≠ []) (each : ∀ o, p' (guarded o) = number (p o)) :
    Scalar.mean ((opinions.map guarded).map p') = number (Scalar.mean (opinions.map p)) := by
  rw [map_guarded each, Guarded.mean_number (by simpa using some)]

theorem plainMean_mirrors (some : opinions ≠ []) (a : K) :
    Mirrors guarded (plainMean opinions a) (plainMean (opinions.map guarded) (number a)) := by
  rw [plainMean, plainMean, mean_guarded some guarded_belief, mean_guarded some guarded_disbelief,
    mean_guarded some guarded_uncertainty]
  exact settle_mirrors _ _ _ _

omit [IsStrictOrderedRing K] in
theorem productsBefore_number (values : List K) :
    productsBefore (values.map number) = (productsBefore values).map number :=
  Guarded.scanl_number _ _ Guarded.number_mul values 1

omit [IsStrictOrderedRing K] in
theorem leaveOneOut_number (values : List K) :
    leaveOneOut (values.map number) = (leaveOneOut values).map number := by
  simp only [leaveOneOut, productsFrom_eq_reverse, ← List.map_reverse, productsBefore_number,
    ← List.map_tail, List.zipWith_map, List.map_zipWith, Guarded.number_mul]

theorem averagingWeights_guarded (opinions : List (Opinion K)) :
    averagingWeights (opinions.map guarded) = (averagingWeights opinions).map number := by
  rw [averagingWeights, map_guarded guarded_uncertainty]
  exact leaveOneOut_number _

theorem weightedSum_guarded (each : ∀ o, p' (guarded o) = number (p o)) :
    weightedSum p' (opinions.map guarded) = number (weightedSum p opinions) := by
  rw [weightedSum, averagingWeights_guarded, List.zipWith_map, weightedSum, ← Guarded.sum_number,
    List.map_zipWith]
  simp only [each, Guarded.number_mul]

theorem averagingMany_mirrors (some : opinions ≠ []) :
    Mirrors guarded (averagingMany opinions) (averagingMany (opinions.map guarded)) := by
  have rate := mean_guarded some guarded_baseRate
  have certain : (opinions.map guarded).filter isDogmatic =
      (opinions.filter isDogmatic).map guarded := by
    rw [List.filter_map]
    congr 2
    funext o
    exact isDogmatic_guarded o
  simp only [averagingMany, rate, averagingWeights_guarded, Guarded.sum_number,
    Guarded.epsilon_number, Guarded.number_le, weightedSum_guarded guarded_belief,
    weightedSum_guarded guarded_disbelief, map_guarded guarded_uncertainty, Guarded.product_number,
    List.length_map, Guarded.natCast_eq, Guarded.number_mul, certain, List.isEmpty_map]
  split
  · rw [← apply_ite (List.map guarded)]
    exact plainMean_mirrors (pooled_ne_nil some) _
  · next weighty =>
    have total := (epsilon_pos.trans (not_le.1 weighty)).ne'
    simp only [Guarded.number_div _ total]
    exact settle_mirrors _ _ _ _

theorem averagingFuse_mirrors (opinions : List (Opinion K)) :
    Mirrors guarded (averagingFuse opinions) (averagingFuse (opinions.map guarded)) := by
  match opinions with
  | [] =>
    intro z none
    cases none
  | [single] =>
    intro z same
    cases same
    rfl
  | [x, y] => exact averagingPair_mirrors x y
  | x :: y :: o :: rest => exact averagingMany_mirrors (List.cons_ne_nil x _)

end

/-- Fusion divides by zero nowhere. -/
theorem fuse_mirrors (kind : Fusion) (opinions : List (Opinion K)) :
    Mirrors guarded (kind.fuse opinions) (kind.fuse (opinions.map guarded)) := by
  cases kind with
  | cumulative => exact cumulativeFuse_mirrors opinions
  | averaging => exact averagingFuse_mirrors opinions

end Credence.Opinion
