import Credence.Proofs.Scalar.Whole
import Credence.Proofs.Score.Order

/-! # Scores of double precision

Rounding does not lead out of the unit interval: whichever method combines scores of double
precision makes a score of them. Scores are ordered as the numbers are that they hold.
-/

namespace Credence.Binary64
open Float.Model Float.Model.UnpackedFloat

theorem exists_holds {x : Float} (finite : x.toModel.unpack.isFinite = true)
    (above : (0 : Float) ≤ x) : ∃ a, Holds x a := by
  have positive : UnpackedFloat.le (.zero .positive) x.toModel.unpack = true := le_iff.1 above
  unfold Holds
  cases value : x.toModel.unpack with
  | zero s => exact ⟨0, .zero s⟩
  | finite s m e some =>
    rw [value] at positive
    cases s with
    | positive => exact ⟨_, .finite some (canonical_of_unpack some value)⟩
    | negative => cases positive
  | notANumber =>
    rw [value] at finite
    cases finite
  | infinity s =>
    rw [value] at finite
    cases finite

/-- The scores of double precision are the numbers up to one that it holds. -/
theorem inUnit_iff {x : Float} : Scalar.InUnit x ↔ ∃ a, Holds x a ∧ a ≤ 1 := by
  constructor
  · intro unit
    rcases exists_holds (scoresFinite x unit) unit.1 with ⟨a, held⟩
    exact ⟨a, held, (holds_le_iff held holds_one).1 unit.2⟩
  · rintro ⟨a, held, most⟩
    exact ⟨(holds_le_iff holds_zero held).2 (Stands.nonneg held),
      (holds_le_iff held holds_one).2 most⟩

theorem inUnit_zero : Scalar.InUnit (0 : Float) := inUnit_iff.2 ⟨0, holds_zero, zero_le_one⟩

theorem inUnit_one : Scalar.InUnit (1 : Float) := inUnit_iff.2 ⟨1, holds_one, le_rfl⟩

theorem clampUnit_eq (x : Float) : Scalar.clampUnit x =
    if (1 : Float) < (if x < (0 : Float) then 0 else x) then 1
    else if x < (0 : Float) then 0 else x := rfl

theorem not_lt_zero {x : Float} {a : ℚ} (held : Holds x a) : ¬ x < (0 : Float) := by
  rw [holds_lt_iff held holds_zero]
  exact not_lt.2 (Stands.nonneg held)

theorem inUnit_clampUnit {x : Float} {a : ℚ} (held : Holds x a) :
    Scalar.InUnit (Scalar.clampUnit x) := by
  rw [clampUnit_eq, if_neg (not_lt_zero held)]
  split
  · exact inUnit_one
  · next most =>
    rw [holds_lt_iff holds_one held] at most
    exact inUnit_iff.2 ⟨a, held, not_lt.1 most⟩

theorem clampUnit_of_inUnit {x : Float} (unit : Scalar.InUnit x) : Scalar.clampUnit x = x := by
  rcases inUnit_iff.1 unit with ⟨a, held, most⟩
  have high : ¬ (1 : Float) < x := by
    rw [holds_lt_iff holds_one held]
    exact not_lt.2 most
  rw [clampUnit_eq, if_neg (not_lt_zero held), if_neg high]

section Unit
variable {x y : Float} (hx : Scalar.InUnit x) (hy : Scalar.InUnit y)

include hx in
theorem inUnit_complement : Scalar.InUnit (1 - x) := by
  rcases inUnit_iff.1 hx with ⟨a, held, most⟩
  have nonneg := Stands.nonneg held
  rcases exists_sub holds_one held most (by norm_num) with ⟨c, rounds, difference⟩
  exact inUnit_iff.2 ⟨c, difference, rounds.le_of_le holds_one.representable (by linarith)⟩

include hx hy in
theorem inUnit_mul : Scalar.InUnit (x * y) := by
  rcases inUnit_iff.1 hx with ⟨a, held, most⟩
  rcases inUnit_iff.1 hy with ⟨b, held', most'⟩
  have product : a * b ≤ 1 := mul_le_one₀ most (Stands.nonneg held') most'
  rcases exists_mul held held' (by linarith) with ⟨c, rounds, held⟩
  exact inUnit_iff.2 ⟨c, held, rounds.le_of_le holds_one.representable product⟩

end Unit

/-- A sum is not less than its terms, and a power of two that bounds it bounds it rounded. -/
theorem exists_add_le {x y : Float} {a b : ℚ} (hx : Holds x a) (hy : Holds y b) {n : ℕ}
    (bound : a + b ≤ 2 ^ n) (small : n ≤ 200) :
    ∃ c, Holds (x + y) c ∧ a ≤ c ∧ b ≤ c ∧ c ≤ 2 ^ n := by
  have most : (2 : ℚ) ^ n ≤ 2 ^ 200 := pow_le_pow_right₀ one_le_two small
  have nonneg := Stands.nonneg hx
  have nonneg' := Stands.nonneg hy
  rcases exists_add hx hy (bound.trans most) with ⟨c, rounds, held⟩
  exact ⟨c, held, rounds.ge_of_ge (Stands.representable hx) (by linarith),
    rounds.ge_of_ge (Stands.representable hy) (by linarith),
    rounds.le_of_le representable_two_pow bound⟩

theorem inUnit_foldl {step : Float → Float → Float} {values : List Float}
    (keeps : ∀ x y, Scalar.InUnit x → Scalar.InUnit y → Scalar.InUnit (step x y)) {start : Float}
    (unit : Scalar.InUnit start) (units : ∀ v ∈ values, Scalar.InUnit v) :
    Scalar.InUnit (values.foldl step start) := by
  induction values generalizing start with
  | nil => exact unit
  | cons v rest ih =>
    rcases List.forall_mem_cons.1 units with ⟨here, behind⟩
    exact ih (keeps start v unit here) behind

section Scores
variable {scores : List Float} (units : ∀ s ∈ scores, Scalar.InUnit s)
include units

theorem inUnit_noisyOr : Scalar.InUnit (noisyOr scores) := by
  have complements : ∀ v ∈ scores.map (fun p => 1 - p), Scalar.InUnit v :=
    List.forall_mem_map.2 (fun p hp => inUnit_complement (units p hp))
  exact inUnit_complement (inUnit_foldl (fun x y => inUnit_mul) inUnit_one complements)

theorem inUnit_largest : Scalar.InUnit (largest scores) := by
  refine inUnit_foldl (fun x y hx hy => ?_) inUnit_zero units
  unfold Scalar.larger
  split
  · exact hy
  · exact hx

end Scores

structure PoolInUnit (m : Pool Float) : Prop where
  belief : Scalar.InUnit m.belief
  uncertainty : Scalar.InUnit m.uncertainty

theorem inUnit_part {x t : Float} {a b : ℚ} (held : Holds x a) (total : Holds t b) (most : a ≤ b)
    (some : 0 < b) : Scalar.InUnit (x / t) := by
  have quotient : a / b ≤ 1 := (div_le_one some).2 most
  rcases exists_div held total some (by linarith) with ⟨c, rounds, held⟩
  exact inUnit_iff.2 ⟨c, held, rounds.le_of_le holds_one.representable quotient⟩

/-- A source that leaves some mass leaves masses that are no more than one. -/
theorem PoolInUnit.rescaled_joined {m : Pool Float} (h : PoolInUnit m) {p : Float}
    (unit : Scalar.InUnit p) (some : ¬ (m.joined p).total ≤ 0) :
    PoolInUnit (m.joined p).rescaled := by
  have rest := inUnit_complement unit
  rcases inUnit_iff.1 (inUnit_mul h.belief unit) with ⟨a, both, ha⟩
  rcases inUnit_iff.1 (inUnit_mul h.belief rest) with ⟨b, first, hb⟩
  rcases inUnit_iff.1 (inUnit_mul h.uncertainty unit) with ⟨c, second, hc⟩
  rcases inUnit_iff.1 (inUnit_mul h.uncertainty rest) with ⟨u, uncertain, hu⟩
  rcases exists_add_le (n := 1) both first (by linarith) (by decide) with ⟨d, early, -, -, hd⟩
  rcases exists_add_le (n := 2) early second (by linarith) (by decide) with ⟨e, belief, -, -, he⟩
  rcases exists_add_le (n := 3) belief uncertain (by linarith) (by decide) with
    ⟨t, total, ofBelief, ofUncertainty, -⟩
  have positive : 0 < t := not_le.1 (fun none => some ((holds_le_iff total holds_zero).2 none))
  exact ⟨inUnit_part belief total ofBelief positive,
    inUnit_part uncertain total ofUncertainty positive⟩

theorem PoolInUnit.beliefAfter {m : Pool Float} (h : PoolInUnit m) {scores : List Float}
    (units : ∀ s ∈ scores, Scalar.InUnit s) : Scalar.InUnit (m.beliefAfter scores) := by
  induction scores generalizing m with
  | nil => exact h.belief
  | cons p rest ih =>
    rcases List.forall_mem_cons.1 units with ⟨here, behind⟩
    unfold Pool.beliefAfter
    dsimp only
    split
    · exact inUnit_zero
    · next some => exact ih (h.rescaled_joined here some) behind

theorem inUnit_dempsterShafer {scores : List Float} (units : ∀ s ∈ scores, Scalar.InUnit s) :
    Scalar.InUnit (dempsterShafer scores) := by
  cases scores with
  | nil => exact inUnit_zero
  | cons first rest =>
    rcases List.forall_mem_cons.1 units with ⟨here, behind⟩
    have pool : PoolInUnit (Pool.ofScore first) := ⟨here, inUnit_complement here⟩
    exact pool.beliefAfter behind

/-- From 2 to the power 54 on representable numbers are four apart. -/
theorem four_le_of_representable {r : ℚ} (h : Representable r) (large : 2 ^ 54 < r) :
    2 ^ 54 + 4 ≤ r := by
  rcases h with ⟨m, e, narrow, -, rfl⟩
  have wide : 2 ≤ e := by
    by_contra short
    have unit : (2 : ℚ) ^ e ≤ 2 ^ (1 : ℤ) := zpow_le_zpow_right₀ one_le_two (by omega)
    have narrow : (m : ℚ) ≤ 2 ^ 53 := by exact_mod_cast narrow.le
    have : (m : ℚ) * 2 ^ e ≤ 2 ^ 53 * 2 ^ (1 : ℤ) :=
      mul_le_mul narrow unit (two_zpow_pos e).le (by positivity)
    norm_num at this large
    linarith
  have units : (m : ℚ) * 2 ^ e = (m * 2 ^ (e - 2).toNat : ℕ) * 4 := by
    rw [zpow_toNat wide]
    push_cast
    ring
  rw [units] at large ⊢
  have count : 2 ^ 52 < m * 2 ^ (e - 2).toNat := by
    have : ((2 ^ 52 : ℕ) : ℚ) < (m * 2 ^ (e - 2).toNat : ℕ) := by
      push_cast at large ⊢
      linarith
    exact_mod_cast this
  have count : ((2 ^ 52 + 1 : ℕ) : ℚ) ≤ (m * 2 ^ (e - 2).toNat : ℕ) := by exact_mod_cast count
  push_cast at count ⊢
  linarith

/-- A sum of scores stops growing before it becomes infinite. -/
theorem exists_sum {values : List Float} (units : ∀ v ∈ values, Scalar.InUnit v) :
    ∃ c, Holds (Scalar.sum values) c ∧ c ≤ 2 ^ 54 := by
  have from_start {start : Float} {a : ℚ} (held : Holds start a) (most : a ≤ 2 ^ 54) :
      ∃ c, Holds (values.foldl (· + ·) start) c ∧ c ≤ 2 ^ 54 := by
    induction values generalizing start a with
    | nil => exact ⟨a, held, most⟩
    | cons v rest ih =>
      rcases List.forall_mem_cons.1 units with ⟨here, behind⟩
      rcases inUnit_iff.1 here with ⟨b, score, unit⟩
      rcases exists_add held score (by linarith) with ⟨c, rounds, sum⟩
      refine ih behind sum (not_lt.1 fun large => ?_)
      have far := four_le_of_representable rounds.representable large
      have middle := rounds.middle representable_two_pow large
      linarith
  exact from_start (Stands.zero .negative) (by norm_num)

/-- A sum of scores divided by their count is a number, or nothing where the count is infinite. -/
theorem exists_mean {scores : List Float} (some : scores ≠ [])
    (units : ∀ s ∈ scores, Scalar.InUnit s) : ∃ c, Holds (Scalar.mean scores) c := by
  rcases exists_sum units with ⟨a, sum, most⟩
  have positive := List.length_pos_iff.2 some
  rcases natCast_cases scores.length with ⟨infinite, -⟩ | ⟨n, rounds, held⟩
  · exact ⟨0, holds_div_infinity sum infinite⟩
  · have least : 1 ≤ n := rounds.ge_of_ge holds_one.representable (by exact_mod_cast positive)
    have quotient : a / n ≤ 2 ^ 200 := by
      have : a / n ≤ a := div_le_self (Stands.nonneg sum) least
      linarith
    rcases exists_div sum held (by linarith) quotient with ⟨c, -, mean⟩
    exact ⟨c, mean⟩

theorem scoresCombine : ScoresCombine Float where
  half := by decide +kernel
  combined scores method result h := by
    rcases combine_eq_ok_iff.1 h with ⟨some, units, rfl⟩
    have raw : ∃ a, Holds (method.raw scores) a := by
      cases method with
      | noisyOr => exact (inUnit_iff.1 (inUnit_noisyOr units)).imp (fun _ h => h.1)
      | average => exact exists_mean some units
      | max => exact (inUnit_iff.1 (inUnit_largest units)).imp (fun _ h => h.1)
      | dempsterShafer => exact (inUnit_iff.1 (inUnit_dempsterShafer units)).imp (fun _ h => h.1)
    rcases raw with ⟨a, held⟩
    exact inUnit_clampUnit held

theorem ranks : Ranks Scalar.InUnit (fun a b : Float => a ≤ b) (fun a b => decide (b < a)) where
  trans {x y z} hx hy hz below below' := by
    obtain ⟨a, ha, -⟩ := inUnit_iff.1 hx
    obtain ⟨b, hb, -⟩ := inUnit_iff.1 hy
    obtain ⟨c, hc, -⟩ := inUnit_iff.1 hz
    rw [holds_le_iff ha hb] at below
    rw [holds_le_iff hb hc] at below'
    exact (holds_le_iff ha hc).2 (below.trans below')
  total {x y} hx hy := by
    obtain ⟨a, ha, -⟩ := inUnit_iff.1 hx
    obtain ⟨b, hb, -⟩ := inUnit_iff.1 hy
    rw [holds_le_iff ha hb, holds_le_iff hb ha]
    exact le_total a b
  beats_iff {x y} hx hy := by
    obtain ⟨a, ha, -⟩ := inUnit_iff.1 hx
    obtain ⟨b, hb, -⟩ := inUnit_iff.1 hy
    rw [decide_eq_true_iff, holds_lt_iff hb ha, holds_le_iff ha hb, not_le]

instance orderedScores : OrderedScores Float where
  toScoresCombine := scoresCombine
  ranks := ranks
  clampUnit_noisyOr units := clampUnit_of_inUnit (inUnit_noisyOr units)

end Credence.Binary64
