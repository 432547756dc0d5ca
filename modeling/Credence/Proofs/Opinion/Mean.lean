import Credence.Proofs.Opinion.Guarded

/-! # Averaging fusion is a mean

Whatever averaging fusion yields lies between the least and the greatest that it is given, in each
component and in the sum of the masses, so copies of one opinion are fused to that opinion. An
opinion that leaves nothing uncertain decides alone where no other one is dogmatic: either no
other weight is left beside its own, or it is the only one that is averaged.
-/

namespace Credence.Opinion
open Scalar (Amid weightedMean)
variable {K : Type} [Field K] [LinearOrder K]

def mass (o : Opinion K) : K := o.belief + o.disbelief + o.uncertainty

/-- The components of an opinion, and the sum of its masses. -/
def parts : List (Opinion K → K) := [belief, disbelief, uncertainty, baseRate, mass]

section
variable {ι : Type} [Fintype ι] {w : ι → K} {x : ι → Opinion K} {o z : Opinion K}

theorem Averages.mass (h : Averages w x z) : z.mass = weightedMean w (fun i => (x i).mass) := by
  simp only [Opinion.mass, h.belief, h.disbelief, h.uncertainty, Scalar.weightedMean_add]

theorem Averages.of_support (h : Averages w x z) (same : ∀ i, w i ≠ 0 → x i = o) :
    z.belief = o.belief ∧ z.disbelief = o.disbelief ∧ z.uncertainty = o.uncertainty := by
  have each (part : Opinion K → K) : weightedMean w (fun i => part (x i)) = part o :=
    Scalar.weightedMean_of_support h.weighty (fun i some => congrArg part (same i some))
  rw [h.belief, h.disbelief, h.uncertainty]
  exact ⟨each Opinion.belief, each Opinion.disbelief, each Opinion.uncertainty⟩

end

variable {opinions : List (Opinion K)}

/-- Beside an opinion that leaves nothing uncertain no other one has any weight. -/
theorem eq_of_othersUncertainty_ne_zero {i j : Fin opinions.length}
    (certain : (opinions.get i).uncertainty = 0) (some : othersUncertainty opinions j ≠ 0) :
    opinions.get j = opinions.get i := by
  by_contra differ
  have apart : i ≠ j := fun same => differ (same ▸ rfl)
  exact some (Finset.prod_eq_zero (Finset.mem_erase.2 ⟨apart, Finset.mem_univ i⟩) certain)

variable [IsStrictOrderedRing K]

/-- The result of averaging fusion lies between the opinions in every part. -/
theorem exists_averagingFuse_amid (some : opinions ≠ []) :
    ∃ z, averagingFuse opinions = .ok z ∧ ∀ part ∈ parts, Amid (opinions.map part) (part z) := by
  obtain ⟨z, made, rate, n, w, x, among, means⟩ := exists_averagingFuse some
  have amid (part : Opinion K → K) (mean : part z = weightedMean w (fun i => part (x i))) :
      Amid (opinions.map part) (part z) := by
    rw [mean]
    exact Scalar.amid_weightedMean means.nonneg means.weighty
      (fun i => List.mem_map_of_mem (among i))
  have rate_amid : Amid (opinions.map baseRate) z.baseRate := by
    rw [rate, Scalar.mean_eq_weightedMean]
    refine Scalar.amid_weightedMean (by simp) (by simpa using some) (fun i => ?_)
    exact List.mem_map_of_mem (List.getElem_mem _)
  refine ⟨z, made, ?_⟩
  simp only [parts, List.forall_mem_cons]
  exact ⟨amid _ means.belief, amid _ means.disbelief, amid _ means.uncertainty, rate_amid,
    amid _ means.mass, by simp⟩

theorem averagingFuse_of_same (some : opinions ≠ []) {o : Opinion K}
    (same : ∀ x ∈ opinions, x = o) : averagingFuse opinions = .ok o := by
  obtain ⟨z, made, amid⟩ := exists_averagingFuse_amid some
  have equal : ∀ part ∈ parts, part z = part o := fun part hp =>
    (amid part hp).eq_of_forall (List.forall_mem_map.2 (fun x hx => congrArg part (same x hx)))
  simp only [parts, List.forall_mem_cons] at equal
  obtain ⟨belief, disbelief, uncertainty, baseRate, -⟩ := equal
  rw [made, Opinion.ext belief disbelief uncertainty baseRate]

/-- Averaging fusion of one opinion or more succeeds without any division by zero, and its result
is a mean: each component, and the sum of the masses, lies between the least and the greatest that
the opinions have there. Any number of copies of one opinion are fused to that opinion. -/
theorem averaging_is_mean (some : opinions ≠ []) :
    (∃ z, averagingFuse opinions = .ok z ∧
      averagingFuse (opinions.map guarded) = .ok z.guarded ∧
      ∀ part ∈ parts, Amid (opinions.map part) (part z)) ∧
    ∀ (o : Opinion K) (n : ℕ), averagingFuse (List.replicate (n + 1) o) = .ok o := by
  constructor
  · obtain ⟨z, made, amid⟩ := exists_averagingFuse_amid some
    exact ⟨z, made, averagingFuse_mirrors opinions z made, amid⟩
  · intro o n
    exact averagingFuse_of_same (by simp) (fun x => List.eq_of_mem_replicate)

def verdicts : List (Opinion ℚ) :=
  [⟨1, 1 / 10 ^ 9, 0, 1 / 2, by decide +kernel⟩, ⟨1 / 2, 0, 1 / 2, 1, by decide +kernel⟩,
    ⟨0, 1, 0, 1 / 5, by decide +kernel⟩]

theorem averaging_is_mean_verdicts :
    (∃ z, averagingFuse verdicts = .ok z ∧
      averagingFuse (verdicts.map guarded) = .ok z.guarded ∧
      Amid [1 + 1 / 10 ^ 9, 1, 1] z.mass ∧ Amid [0, 1 / 2, 0] z.uncertainty) ∧
    ∀ o ∈ verdicts, averagingFuse [o, o, o, o] = .ok o := by
  obtain ⟨⟨z, made, total, amid⟩, copies⟩ :=
    averaging_is_mean (List.cons_ne_nil _ _ : verdicts ≠ [])
  simp only [parts, List.forall_mem_cons] at amid
  obtain ⟨-, -, uncertainty, -, mass, -⟩ := amid
  have masses : verdicts.map Opinion.mass = [1 + 1 / 10 ^ 9, 1, 1] := by decide +kernel
  exact ⟨⟨z, made, total, masses ▸ mass, uncertainty⟩, fun o _ => copies o 3⟩

theorem eq_of_mem_pooled {i : Fin opinions.length} (certain : (opinions.get i).uncertainty = 0)
    (alone : ∀ j : Fin opinions.length, (opinions.get j).isDogmatic = true → j = i) {y : Opinion K}
    (hy : y ∈ pooled opinions) : y = opinions.get i := by
  have kept : opinions.get i ∈ opinions.filter isDogmatic :=
    List.mem_filter.2 ⟨List.get_mem _ _, decide_eq_true (certain.le.trans epsilon_pos.le)⟩
  have dogmatic : y.isDogmatic = true := by
    unfold pooled at hy
    split at hy
    · next none => simp [List.isEmpty_iff.1 none] at kept
    · exact (List.mem_filter.1 hy).2
  obtain ⟨j, rfl⟩ := List.get_of_mem (mem_of_mem_pooled hy)
  exact congrArg opinions.get (alone j dogmatic)

/-- The only dogmatic opinion, if it leaves nothing uncertain, decides an averaging fusion: its
masses are those of the result, whatever the others say and wherever it stands. The base rate is
the mean of all. -/
theorem averaging_decided_by_certain {i : Fin opinions.length}
    (certain : (opinions.get i).uncertainty = 0)
    (alone : ∀ j : Fin opinions.length, (opinions.get j).isDogmatic = true → j = i) :
    ∃ z, averagingFuse opinions = .ok z ∧ z.belief = (opinions.get i).belief ∧
      z.disbelief = (opinions.get i).disbelief ∧ z.uncertainty = 0 ∧
      z.baseRate = (opinions.map baseRate).sum / opinions.length := by
  have some : opinions ≠ [] := List.ne_nil_of_mem (List.get_mem opinions i)
  have rate : Scalar.mean (opinions.map baseRate) =
      (opinions.map baseRate).sum / opinions.length := by
    rw [Scalar.mean, Scalar.sum_eq, List.length_map]
  rw [averagingFuse_of_ne_nil some, ← rate, ← certain]
  rcases le_or_gt (∑ j, othersUncertainty opinions j) Scalar.epsilon with light | weighty
  · obtain ⟨z, made, means, mean⟩ := exists_averagingMany_of_le some light
    obtain ⟨belief, disbelief, uncertainty⟩ :=
      means.of_support (fun _ _ => eq_of_mem_pooled certain alone (List.getElem_mem _))
    exact ⟨z, made, belief, disbelief, uncertainty, mean⟩
  · obtain ⟨z, made, means, mean⟩ := exists_averagingMany_of_lt some weighty
    obtain ⟨belief, disbelief, uncertainty⟩ :=
      means.of_support (fun _ => eq_of_othersUncertainty_ne_zero certain)
    exact ⟨z, made, belief, disbelief, uncertainty, mean⟩

def nearlyCertain : List (Opinion ℚ) :=
  [⟨0, 1 - 1 / 10 ^ 15, 1 / 10 ^ 15, 1, by decide +kernel⟩,
    ⟨4 / 5, 1 / 5, 0, 1 / 2, by decide +kernel⟩,
    ⟨0, 1 - 1 / 10 ^ 15, 1 / 10 ^ 15, 3 / 4, by decide +kernel⟩]

theorem averaging_decided_by_certain_nearly :
    ∃ z, averagingFuse nearlyCertain = .ok z ∧ z.belief = 4 / 5 ∧ z.disbelief = 1 / 5 ∧
      z.uncertainty = 0 ∧ z.baseRate = 3 / 4 := by
  obtain ⟨z, made, belief, disbelief, uncertainty, rate⟩ :=
    averaging_decided_by_certain (i := (⟨1, by decide⟩ : Fin nearlyCertain.length))
      (by decide +kernel) (by decide +kernel)
  refine ⟨z, made, belief, disbelief, uncertainty, rate.trans ?_⟩
  decide +kernel

end Credence.Opinion
