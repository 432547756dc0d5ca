import Mathlib.Algebra.Order.BigOperators.Ring.Finset
import Mathlib.Tactic.Linarith
import Mathlib.Tactic.Ring
import Credence.Proofs.Opinion.Exact
import Credence.Proofs.Opinion.LeaveOneOut
import Credence.Proofs.Scalar.Mean

/-! # Averaging fusion

However averaging fusion gets to its result, each mass of it is a weighted mean of that mass over
some of the opinions fused, so it never fails. The weights are the products of the uncertainties of
the other opinions as long as these add up to more than the rounding unit; below that the
opinions are averaged plainly, although their weights may still tell them apart.
-/

namespace Credence.Opinion
open Scalar (InUnit weightedMean)
variable {K : Type} [Field K] [LinearOrder K]

theorem zipWith_ofFn {n : ℕ} {α β γ : Type} (f : α → β → γ) (a : Fin n → α) (b : Fin n → β) :
    List.zipWith f (List.ofFn a) (List.ofFn b) = List.ofFn (fun i => f (a i) (b i)) := by
  induction n with
  | zero => simp
  | succ n ih => simp [List.ofFn_succ, ih]

/-- The product of the uncertainties of all opinions but one. -/
def othersUncertainty (opinions : List (Opinion K)) (i : Fin opinions.length) : K :=
  ∏ j ∈ Finset.univ.erase i, opinions[j].uncertainty

theorem averagingWeights_eq (opinions : List (Opinion K)) :
    averagingWeights opinions = List.ofFn (othersUncertainty opinions) := by
  rw [averagingWeights, ← List.ofFn_getElem_eq_map, leaveOneOut_ofFn]
  rfl

theorem sum_averagingWeights (opinions : List (Opinion K)) :
    Scalar.sum (averagingWeights opinions) = ∑ i, othersUncertainty opinions i := by
  rw [Scalar.sum_eq, averagingWeights_eq, List.sum_ofFn]

theorem weightedSum_eq (component : Opinion K → K) (opinions : List (Opinion K)) :
    weightedSum component opinions =
      ∑ i : Fin opinions.length, component opinions[i] * othersUncertainty opinions i := by
  have listed : List.ofFn (fun i : Fin opinions.length => opinions[i]) = opinions := by simp
  have paired := zipWith_ofFn (fun o weight => component o * weight)
    (fun i : Fin opinions.length => opinions[i]) (othersUncertainty opinions)
  rw [listed] at paired
  rw [weightedSum, Scalar.sum_eq, averagingWeights_eq, paired, List.sum_ofFn]

theorem uncertainty_mul_othersUncertainty (opinions : List (Opinion K))
    (i : Fin opinions.length) :
    opinions[i].uncertainty * othersUncertainty opinions i =
      ∏ j : Fin opinions.length, opinions[j].uncertainty :=
  Finset.mul_prod_erase Finset.univ (fun j : Fin opinions.length => opinions[j].uncertainty)
    (Finset.mem_univ i)

/-- The opinions that are averaged plainly where the weights add up to no more than the rounding
unit: the dogmatic ones, or all if none is dogmatic. -/
def pooled (opinions : List (Opinion K)) : List (Opinion K) :=
  if (opinions.filter isDogmatic).isEmpty then opinions else opinions.filter isDogmatic

theorem mem_of_mem_pooled {opinions : List (Opinion K)} {x : Opinion K} (h : x ∈ pooled opinions) :
    x ∈ opinions := by
  unfold pooled at h
  split at h
  · exact h
  · exact List.mem_of_mem_filter h

theorem pooled_ne_nil {opinions : List (Opinion K)} (some : opinions ≠ []) :
    pooled opinions ≠ [] := by
  unfold pooled
  split
  · exact some
  · next certain => simpa using certain

/-- The weighted formula for the uncertainty is a weighted mean like those for the other masses. -/
theorem uncertainty_weightedMean (opinions : List (Opinion K)) :
    (opinions.length : K) * ∏ i : Fin opinions.length, opinions[i].uncertainty =
      ∑ i, opinions[i].uncertainty * othersUncertainty opinions i := by
  simp only [uncertainty_mul_othersUncertainty, Finset.sum_const, Finset.card_univ,
    Fintype.card_fin, nsmul_eq_mul]

theorem averagingMany_of_le {opinions : List (Opinion K)}
    (light : ∑ i, othersUncertainty opinions i ≤ Scalar.epsilon) :
    averagingMany opinions =
      plainMean (pooled opinions) (Scalar.mean (opinions.map Opinion.baseRate)) := by
  rw [averagingMany, sum_averagingWeights, if_pos light]
  rfl

theorem averagingMany_of_lt {opinions : List (Opinion K)}
    (weighty : Scalar.epsilon < ∑ i, othersUncertainty opinions i) :
    averagingMany opinions = settle
      (weightedMean (othersUncertainty opinions) (fun i => opinions[i].belief))
      (weightedMean (othersUncertainty opinions) (fun i => opinions[i].disbelief))
      (weightedMean (othersUncertainty opinions) (fun i => opinions[i].uncertainty))
      (Scalar.mean (opinions.map Opinion.baseRate)) := by
  have product : Scalar.product (opinions.map Opinion.uncertainty) =
      ∏ i : Fin opinions.length, opinions[i].uncertainty := by
    rw [Scalar.product_eq, ← List.ofFn_getElem_eq_map, List.prod_ofFn]
    rfl
  rw [averagingMany, sum_averagingWeights, if_neg (not_le.2 weighty), weightedSum_eq,
    weightedSum_eq, product]
  simp only [weightedMean, ← uncertainty_weightedMean]

theorem averagingFuse_eq_many {opinions : List (Opinion K)} (three : 3 ≤ opinions.length) :
    averagingFuse opinions = averagingMany opinions := by
  match opinions, three with
  | _ :: _ :: _ :: _, _ => rfl

/-- Each mass of an opinion is a mean of that mass over some opinions, by weights that are not
negative and do not all vanish. -/
structure Averages {ι : Type} [Fintype ι] (w : ι → K) (x : ι → Opinion K) (z : Opinion K) :
    Prop where
  nonneg : ∀ i, 0 ≤ w i
  weighty : ∑ i, w i ≠ 0
  belief : z.belief = weightedMean w (fun i => (x i).belief)
  disbelief : z.disbelief = weightedMean w (fun i => (x i).disbelief)
  uncertainty : z.uncertainty = weightedMean w (fun i => (x i).uncertainty)

theorem Averages.whole {ι : Type} [Fintype ι] {w : ι → K} {x : ι → Opinion K} {z : Opinion K}
    (h : Averages w x z) (whole : ∀ i, Whole (x i)) : Whole z := by
  simp only [Whole] at whole ⊢
  rw [h.belief, h.disbelief, h.uncertainty, ← Scalar.weightedMean_add, ← Scalar.weightedMean_add]
  simp only [whole]
  exact Scalar.weightedMean_const h.weighty 1

theorem mean_pair (a b : K) : Scalar.mean [a, b] = Scalar.halfSum a b := by
  rw [Scalar.mean, Scalar.sum_eq, Scalar.halfSum]
  simp

theorem averagingWeights_pair (x y : Opinion K) :
    averagingWeights [x, y] = [y.uncertainty, x.uncertainty] := by
  simp [averagingWeights, leaveOneOut, productsBefore, productsFrom]

theorem sum_othersUncertainty_pair (x y : Opinion K) :
    ∑ i, othersUncertainty [x, y] i = x.uncertainty + y.uncertainty := by
  rw [← sum_averagingWeights, Scalar.sum_eq]
  simp [averagingWeights_pair, add_comm]

variable [IsStrictOrderedRing K]

theorem epsilon_pos : (0 : K) < Scalar.epsilon :=
  one_div_pos.2 (Nat.cast_pos.2 (by decide : 0 < 4503599627370496))

theorem epsilon_lt_one : Scalar.epsilon < (1 : K) :=
  (div_lt_one (Nat.cast_pos.2 (by decide))).2 (Nat.one_lt_cast.2 (by decide))

theorem othersUncertainty_nonneg (opinions : List (Opinion K)) (i : Fin opinions.length) :
    0 ≤ othersUncertainty opinions i :=
  Finset.prod_nonneg (fun j _ => opinions[j].bounds.uncertainty.1)

/-- The weights do not all vanish where at most one opinion leaves nothing uncertain. -/
theorem sum_othersUncertainty_pos {opinions : List (Opinion K)} (some : opinions ≠ [])
    (certain : ∀ i j : Fin opinions.length,
      opinions[i].uncertainty = 0 → opinions[j].uncertainty = 0 → i = j) :
    0 < ∑ i, othersUncertainty opinions i := by
  obtain ⟨i, alone⟩ : ∃ i : Fin opinions.length, ∀ j ≠ i, opinions[j].uncertainty ≠ 0 := by
    by_cases h : ∃ i : Fin opinions.length, opinions[i].uncertainty = 0
    · obtain ⟨i, hi⟩ := h
      exact ⟨i, fun j apart hj => apart (certain j i hj hi)⟩
    · exact ⟨⟨0, List.length_pos_iff.2 some⟩, fun j _ hj => h ⟨j, hj⟩⟩
  refine Finset.sum_pos' (fun i _ => othersUncertainty_nonneg opinions i) ⟨i, Finset.mem_univ i, ?_⟩
  refine Finset.prod_pos (fun j hj => lt_of_le_of_ne opinions[j].bounds.uncertainty.1 ?_)
  exact (alone j (Finset.ne_of_mem_erase hj)).symm

/-- Means of opinions are the masses of an opinion. -/
theorem exists_settle_weightedMean {ι : Type} [Fintype ι] {w : ι → K} (x : ι → Opinion K) {a : K}
    (nonneg : ∀ i, 0 ≤ w i) (weighty : ∑ i, w i ≠ 0) (ha : InUnit a) :
    ∃ z, settle (weightedMean w (fun i => (x i).belief))
        (weightedMean w (fun i => (x i).disbelief))
        (weightedMean w (fun i => (x i).uncertainty)) a = .ok z ∧
      Averages w x z ∧ z.baseRate = a := by
  have within (i : ι) := (x i).bounds
  have whole : |weightedMean w (fun i => (x i).belief) + weightedMean w (fun i => (x i).disbelief) +
      weightedMean w (fun i => (x i).uncertainty) - 1| ≤ tolerance := by
    rw [← Scalar.weightedMean_add, ← Scalar.weightedMean_add, abs_sub_le_iff]
    have low := Scalar.le_weightedMean nonneg weighty
      (fun i => sub_le_comm.1 (abs_sub_le_iff.1 (within i).sum).2)
    have high := Scalar.weightedMean_le nonneg weighty
      (fun i => sub_le_iff_le_add'.1 (abs_sub_le_iff.1 (within i).sum).1)
    exact ⟨by linarith, by linarith⟩
  have faultless := fault?_eq_none_iff.2
    ⟨Scalar.inUnit_weightedMean nonneg weighty (fun i => (within i).belief),
      Scalar.inUnit_weightedMean nonneg weighty (fun i => (within i).disbelief),
      Scalar.inUnit_weightedMean nonneg weighty (fun i => (within i).uncertainty), ha, whole⟩
  exact ⟨_, settle_eq_ok faultless, ⟨nonneg, weighty, rfl, rfl, rfl⟩, rfl⟩

theorem inUnit_meanBaseRate {opinions : List (Opinion K)} (some : opinions ≠ []) :
    InUnit (Scalar.mean (opinions.map Opinion.baseRate)) :=
  Scalar.inUnit_mean some (fun o _ => o.bounds.baseRate)

theorem exists_plainMean {pool : List (Opinion K)} {a : K} (some : pool ≠ []) (ha : InUnit a) :
    ∃ z, plainMean pool a = .ok z ∧
      Averages (fun _ : Fin pool.length => 1) (fun i => pool[i]) z ∧ z.baseRate = a := by
  simp only [plainMean, Scalar.mean_eq_weightedMean]
  apply exists_settle_weightedMean (fun i : Fin pool.length => pool[i]) (by simp) _ ha
  simpa using some

theorem inUnit_halfSum {a a' : K} (h : InUnit a) (h' : InUnit a') :
    InUnit (Scalar.halfSum a a') := by
  rw [← mean_pair]
  simpa using Scalar.inUnit_mean (f := id) (List.cons_ne_nil a [a']) (by simp [h, h'])

theorem exists_averagingMany_of_lt {opinions : List (Opinion K)} (some : opinions ≠ [])
    (weighty : Scalar.epsilon < ∑ i, othersUncertainty opinions i) :
    ∃ z, averagingMany opinions = .ok z ∧
      Averages (othersUncertainty opinions) (fun i => opinions[i]) z ∧
      z.baseRate = Scalar.mean (opinions.map Opinion.baseRate) := by
  rw [averagingMany_of_lt weighty]
  exact exists_settle_weightedMean (fun i : Fin opinions.length => opinions[i])
    (othersUncertainty_nonneg opinions) (epsilon_pos.trans weighty).ne' (inUnit_meanBaseRate some)

theorem exists_averagingMany_of_le {opinions : List (Opinion K)} (some : opinions ≠ [])
    (light : ∑ i, othersUncertainty opinions i ≤ Scalar.epsilon) :
    ∃ z, averagingMany opinions = .ok z ∧
      Averages (fun _ : Fin (pooled opinions).length => 1) (fun i => (pooled opinions)[i]) z ∧
      z.baseRate = Scalar.mean (opinions.map Opinion.baseRate) := by
  rw [averagingMany_of_le light]
  exact exists_plainMean (pooled_ne_nil some) (inUnit_meanBaseRate some)

theorem averagingMany_single (x : Opinion K) : averagingMany [x] = .ok x := by
  have weights : averagingWeights [x] = [1] := by
    simp [averagingWeights, leaveOneOut, productsBefore, productsFrom]
  have weighty : ¬ (1 : K) ≤ Scalar.epsilon := not_le.2 epsilon_lt_one
  simp [averagingMany, weightedSum, weights, weighty, Scalar.sum_eq, Scalar.product_eq,
    Scalar.mean, settle_eq_ok x.faultless]

/-- Two opinions that leave no more uncertain than the rounding unit are both dogmatic. -/
theorem dogmatic_of_light {x y : Opinion K}
    (light : x.uncertainty + y.uncertainty ≤ Scalar.epsilon) :
    x.isDogmatic = true ∧ y.isDogmatic = true := by
  have hx := x.bounds.uncertainty.1
  have hy := y.bounds.uncertainty.1
  exact ⟨decide_eq_true (by linarith), decide_eq_true (by linarith)⟩

theorem averagingMany_pair (x y : Opinion K) : averagingMany [x, y] = averagingPair x y := by
  have weights := averagingWeights_pair x y
  have total : Scalar.sum [y.uncertainty, x.uncertainty] = x.uncertainty + y.uncertainty := by
    simp [Scalar.sum_eq, add_comm]
  by_cases light : x.uncertainty + y.uncertainty ≤ Scalar.epsilon
  · simp [averagingMany, averagingPair, weights, total, light, dogmatic_of_light light, plainMean,
      mean_pair, Scalar.halfSum]
  · simp only [averagingMany, averagingPair, weightedSum, weights, total, if_neg light]
    simp [Scalar.sum_eq, Scalar.product_eq, mean_pair, mul_assoc]

/-- However many opinions there are, they are fused as many are. -/
theorem averagingFuse_of_ne_nil {opinions : List (Opinion K)} (some : opinions ≠ []) :
    averagingFuse opinions = averagingMany opinions := by
  match opinions, some with
  | [x], _ => exact (averagingMany_single x).symm
  | [x, y], _ => exact (averagingMany_pair x y).symm
  | _ :: _ :: _ :: _, _ => rfl

/-- Averaging fusion never fails: its result is a mean of opinions that it is given. -/
theorem exists_averagingFuse {opinions : List (Opinion K)} (some : opinions ≠ []) :
    ∃ z, averagingFuse opinions = .ok z ∧
      z.baseRate = Scalar.mean (opinions.map Opinion.baseRate) ∧
      ∃ (n : ℕ) (w : Fin n → K) (x : Fin n → Opinion K),
        (∀ i, x i ∈ opinions) ∧ Averages w x z := by
  rw [averagingFuse_of_ne_nil some]
  rcases le_or_gt (∑ i, othersUncertainty opinions i) Scalar.epsilon with light | weighty
  · obtain ⟨z, made, means, rate⟩ := exists_averagingMany_of_le some light
    exact ⟨z, made, rate, _, _, _, fun i => mem_of_mem_pooled (List.getElem_mem _), means⟩
  · obtain ⟨z, made, means, rate⟩ := exists_averagingMany_of_lt some weighty
    exact ⟨z, made, rate, _, _, _, fun i => List.getElem_mem _, means⟩

structure WeightedFusion (opinions : List (Opinion K)) (z : Opinion K) : Prop where
  belief : z.belief = (∑ i, opinions[i].belief * othersUncertainty opinions i) /
    ∑ i, othersUncertainty opinions i
  disbelief : z.disbelief = (∑ i, opinions[i].disbelief * othersUncertainty opinions i) /
    ∑ i, othersUncertainty opinions i
  uncertainty : z.uncertainty =
    (opinions.length : K) * (∏ i : Fin opinions.length, opinions[i].uncertainty) /
      ∑ i, othersUncertainty opinions i
  baseRate : z.baseRate = (∑ i : Fin opinions.length, opinions[i].baseRate) / opinions.length

/-- The plain mean of the pooled opinions has the masses of the weighted mean of all. -/
def MeansCoincide (opinions : List (Opinion K)) : Prop :=
  ∀ mass ∈ [Opinion.belief, Opinion.disbelief, Opinion.uncertainty],
    Scalar.mean ((pooled opinions).map mass) =
      weightedMean (othersUncertainty opinions) (fun i => mass opinions[i])

omit [IsStrictOrderedRing K] in
theorem weightedFusion_iff {opinions : List (Opinion K)} {z : Opinion K}
    (rate : z.baseRate = Scalar.mean (opinions.map Opinion.baseRate)) :
    WeightedFusion opinions z ↔
      z.belief = weightedMean (othersUncertainty opinions) (fun i => opinions[i].belief) ∧
      z.disbelief = weightedMean (othersUncertainty opinions) (fun i => opinions[i].disbelief) ∧
      z.uncertainty =
        weightedMean (othersUncertainty opinions) (fun i => opinions[i].uncertainty) := by
  have uncertain : weightedMean (othersUncertainty opinions) (fun i => opinions[i].uncertainty) =
      (opinions.length : K) * (∏ i : Fin opinions.length, opinions[i].uncertainty) /
        ∑ i, othersUncertainty opinions i := by
    rw [uncertainty_weightedMean, weightedMean]
  have plain : z.baseRate =
      (∑ i : Fin opinions.length, opinions[i].baseRate) / opinions.length := by
    simpa [Scalar.mean_eq_weightedMean, weightedMean] using rate
  constructor
  · intro h
    exact ⟨h.belief, h.disbelief, h.uncertainty.trans uncertain.symm⟩
  · rintro ⟨belief, disbelief, uncertainty⟩
    exact ⟨belief, disbelief, uncertainty.trans uncertain, plain⟩

theorem pooled_pair {x y : Opinion K} (light : x.uncertainty + y.uncertainty ≤ Scalar.epsilon) :
    pooled [x, y] = [x, y] := by
  simp [pooled, dogmatic_of_light light]

/-- Two opinions are fused to the same opinion as a pair and as many, and neither way fails. It is
their plain mean where together they leave no more uncertain than the rounding unit, and otherwise
the weighted one. -/
theorem averaging_pair_as_many (x y : Opinion K) :
    ∃ z, averagingPair x y = .ok z ∧ averagingMany [x, y] = .ok z ∧
      z.baseRate = Scalar.halfSum x.baseRate y.baseRate ∧
      (x.uncertainty + y.uncertainty ≤ Scalar.epsilon →
        Averages (fun _ : Fin [x, y].length => 1) (fun i => [x, y][i]) z) ∧
      (Scalar.epsilon < x.uncertainty + y.uncertainty → WeightedFusion [x, y] z) := by
  have some : [x, y] ≠ [] := List.cons_ne_nil x [y]
  have rates : Scalar.mean ([x, y].map Opinion.baseRate) =
      Scalar.halfSum x.baseRate y.baseRate := mean_pair x.baseRate y.baseRate
  rw [← averagingMany_pair]
  rcases le_or_gt (x.uncertainty + y.uncertainty) Scalar.epsilon with light | weighty
  · have plain : averagingMany [x, y] = _ :=
      averagingMany_of_le ((sum_othersUncertainty_pair x y).trans_le light)
    rw [pooled_pair light] at plain
    obtain ⟨z, made, means, rate⟩ := exists_plainMean some (inUnit_meanBaseRate some)
    rw [← plain] at made
    exact ⟨z, made, made, rate.trans rates, fun _ => means, fun h => absurd light (not_le.2 h)⟩
  · obtain ⟨z, made, means, rate⟩ :=
      exists_averagingMany_of_lt some (weighty.trans_eq (sum_othersUncertainty_pair x y).symm)
    refine ⟨z, made, made, rate.trans rates, fun h => absurd weighty (not_lt.2 h), fun _ => ?_⟩
    exact (weightedFusion_iff rate).2 ⟨means.belief, means.disbelief, means.uncertainty⟩

def praise : Opinion ℚ := ⟨1 - 1 / 10 ^ 17, 0, 1 / 10 ^ 17, 1 / 2, by decide +kernel⟩

def blame : Opinion ℚ := ⟨0, 1, 0, 1 / 10, by decide +kernel⟩

def qualm : Opinion ℚ := ⟨0, 3 / 4, 1 / 4, 1 / 5, by decide +kernel⟩

/-- Praise and blame are both dogmatic, and their plain mean is taken. A qualm is outweighed. -/
theorem averaging_pair_as_many_praise :
    (∃ z, averagingPair praise blame = .ok z ∧ averagingMany [praise, blame] = .ok z ∧
      z.disbelief = 1 / 2) ∧
    ∃ z, averagingPair praise qualm = .ok z ∧ averagingMany [praise, qualm] = .ok z ∧
      z.baseRate = 7 / 20 ∧ z.belief = (1 - 1 / 10 ^ 17) * (1 / 4) / (1 / 10 ^ 17 + 1 / 4) := by
  constructor
  · obtain ⟨z, pair, many, -, plain, -⟩ := averaging_pair_as_many praise blame
    refine ⟨z, pair, many, ?_⟩
    rw [(plain (by decide +kernel)).disbelief]
    decide +kernel
  · obtain ⟨z, pair, many, rate, -, weighted⟩ := averaging_pair_as_many praise qualm
    refine ⟨z, pair, many, ?_, ?_⟩
    · rw [rate]
      decide +kernel
    · rw [(weighted (by decide +kernel)).belief]
      decide +kernel

/-- Three opinions or more are fused by the weighted formula exactly where their weights add up to
more than the rounding unit, or where the plain mean that is taken instead happens to be the
same. -/
theorem averagingFuse_weighted_iff {opinions : List (Opinion K)} (three : 3 ≤ opinions.length)
    (certain : ∀ i j : Fin opinions.length,
      opinions[i].uncertainty = 0 → opinions[j].uncertainty = 0 → i = j) :
    0 < ∑ i, othersUncertainty opinions i ∧
      ∃ z, averagingFuse opinions = .ok z ∧
        (WeightedFusion opinions z ↔
          Scalar.epsilon < ∑ i, othersUncertainty opinions i ∨ MeansCoincide opinions) ∧
        (∑ i, othersUncertainty opinions i ≤ Scalar.epsilon →
          Averages (fun _ : Fin (pooled opinions).length => 1)
            (fun i => (pooled opinions)[i]) z) := by
  have some : opinions ≠ [] := List.ne_nil_of_length_pos (by omega)
  refine ⟨sum_othersUncertainty_pos some certain, ?_⟩
  rw [averagingFuse_eq_many three]
  rcases le_or_gt (∑ i, othersUncertainty opinions i) Scalar.epsilon with light | weighty
  · obtain ⟨z, made, means, rate⟩ := exists_averagingMany_of_le some light
    refine ⟨z, made, ?_, fun _ => means⟩
    rw [weightedFusion_iff rate, means.belief, means.disbelief, means.uncertainty]
    simp [not_lt.2 light, MeansCoincide, Scalar.mean_eq_weightedMean]
  · obtain ⟨z, made, means, rate⟩ := exists_averagingMany_of_lt some weighty
    refine ⟨z, made, iff_of_true ?_ (.inl weighty), fun light => absurd weighty (not_lt.2 light)⟩
    exact (weightedFusion_iff rate).2 ⟨means.belief, means.disbelief, means.uncertainty⟩

def reviews : List (Opinion ℚ) :=
  [⟨1 / 2, 0, 1 / 2, 1 / 2, by decide +kernel⟩, ⟨3 / 4, 0, 1 / 4, 1 / 2, by decide +kernel⟩,
    ⟨0, 3 / 4, 1 / 4, 1 / 5, by decide +kernel⟩]

theorem averagingFuse_weighted_iff_reviews :
    ∃ z, averagingFuse reviews = .ok z ∧ z.belief = 2 / 5 ∧ z.disbelief = 3 / 10 ∧
      z.uncertainty = 3 / 10 ∧ z.baseRate = 2 / 5 := by
  obtain ⟨-, z, made, weighted, -⟩ :=
    averagingFuse_weighted_iff (by decide : 3 ≤ reviews.length) (by decide +kernel)
  have h := weighted.2 (.inl (by decide +kernel))
  refine ⟨z, made, ?_, ?_, ?_, ?_⟩
  · rw [h.belief]
    decide +kernel
  · rw [h.disbelief]
    decide +kernel
  · rw [h.uncertainty]
    decide +kernel
  · rw [h.baseRate]
    decide +kernel

def lopsided : List (Opinion ℚ) :=
  [⟨1 - 1 / 10 ^ 10, 0, 1 / 10 ^ 10, 1 / 2, by decide +kernel⟩,
    ⟨0, 1 - 1 / 10 ^ 8, 1 / 10 ^ 8, 1 / 2, by decide +kernel⟩,
    ⟨0, 1 - 1 / 10 ^ 8, 1 / 10 ^ 8, 1 / 2, by decide +kernel⟩]

/-- The weights are small but none of them vanishes, and the surest opinion is outvoted. -/
theorem averagingFuse_ignores_weights :
    3 ≤ lopsided.length ∧ (∀ i, 0 < othersUncertainty lopsided i) ∧
      (∀ i j : Fin lopsided.length,
        lopsided[i].uncertainty = 0 → lopsided[j].uncertainty = 0 → i = j) ∧
      ∃ z, averagingFuse lopsided = .ok z ∧ ¬ WeightedFusion lopsided z := by
  obtain ⟨z, made, low⟩ := exists_eq_ok_of_any (x := averagingFuse lopsided)
    (p := fun o => decide (o.belief < 1 / 2)) (by decide +kernel)
  refine ⟨by decide, by decide +kernel, by decide +kernel, z, made, fun h => ?_⟩
  have high : 9 / 10 < (∑ i, lopsided[i].belief * othersUncertainty lopsided i) /
      ∑ i, othersUncertainty lopsided i := by decide +kernel
  rw [← h.belief] at high
  have low := of_decide_eq_true low
  linarith

end Credence.Opinion
