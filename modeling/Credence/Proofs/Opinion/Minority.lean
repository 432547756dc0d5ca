import Mathlib.Algebra.Order.BigOperators.Group.Finset
import Mathlib.Tactic.Linarith
import Mathlib.Tactic.NormNum
import Credence.Proofs.Opinion.Discord

/-! # A lying minority

Opinions of honest sources do not contradict each other. If the opinions of liars contradict all
of them about equally, and the liars are so few that together they contradict an honest opinion
less than the honest ones contradict a liar, then some liar always is more discordant than every
honest source. So no honest opinion is ever dropped, and a threshold that is low enough lets all
lies be dropped, however the liars stand to each other and wherever they are in the input.
-/

namespace Credence.Opinion
variable {K : Type} [Field K] [LinearOrder K]

/-- Honest opinions agree with each other, and the others contradict each of them by an amount
between two bounds and are too few to outweigh them. -/
structure LyingMinority (opinions : List (Opinion K)) (honest : Finset (Fin opinions.length))
    (low high : K) : Prop where
  harmony : ∀ i ∈ honest, ∀ j ∈ honest, i ≠ j → conflict (opinions.get i) (opinions.get j) = 0
  dissent : ∀ i ∈ honest, ∀ j ∉ honest,
    low ≤ conflict (opinions.get i) (opinions.get j) ∧
      conflict (opinions.get i) (opinions.get j) ≤ high
  outweighed : (honestᶜ.card : K) * high < honest.card * low

variable {opinions : List (Opinion K)} {honest S : Finset (Fin opinions.length)} {low high : K}
  {i j : Fin opinions.length}

/-- Only lies contradict an honest opinion. -/
theorem LyingMinority.sum_conflict (h : LyingMinority opinions honest low high)
    (hi : i ∈ honest) :
    ∑ j ∈ S.erase i, conflict (opinions.get i) (opinions.get j) =
      ∑ j ∈ S \ honest, conflict (opinions.get i) (opinions.get j) := by
  symm
  apply Finset.sum_subset
  · intro j hj
    rw [Finset.mem_sdiff] at hj
    exact Finset.mem_erase.2 ⟨fun same => hj.2 (same ▸ hi), hj.1⟩
  · intro j hj notLie
    rw [Finset.mem_erase] at hj
    have hj' : j ∈ honest := by simpa [hj.2] using notLie
    exact h.harmony i hi j hj' (Ne.symm hj.1)

variable [IsStrictOrderedRing K]

theorem conflict_nonneg (x y : Opinion K) : 0 ≤ conflict x y :=
  add_nonneg (mul_nonneg x.bounds.belief.1 y.bounds.disbelief.1)
    (mul_nonneg x.bounds.disbelief.1 y.bounds.belief.1)

namespace LyingMinority

theorem sum_conflict_le (h : LyingMinority opinions honest low high) (hi : i ∈ honest)
    (hj : j ∉ honest) :
    ∑ k ∈ S.erase i, conflict (opinions.get i) (opinions.get k) ≤ (honestᶜ.card : K) * high := by
  have nonneg : 0 ≤ high := (conflict_nonneg _ _).trans (h.dissent i hi j hj).2
  have lies : S \ honest ⊆ honestᶜ := by
    intro k hk
    exact Finset.mem_compl.2 (Finset.mem_sdiff.1 hk).2
  calc ∑ k ∈ S.erase i, conflict (opinions.get i) (opinions.get k)
      = ∑ k ∈ S \ honest, conflict (opinions.get i) (opinions.get k) := h.sum_conflict hi
    _ ≤ ((S \ honest).card : K) * high := by
        rw [← nsmul_eq_mul]
        apply Finset.sum_le_card_nsmul
        intro k hk
        exact (h.dissent i hi k (Finset.mem_sdiff.1 hk).2).2
    _ ≤ (honestᶜ.card : K) * high :=
        mul_le_mul_of_nonneg_right (Nat.cast_le.2 (Finset.card_le_card lies)) nonneg

theorem le_sum_conflict (h : LyingMinority opinions honest low high) (within : honest ⊆ S)
    (hj : j ∉ honest) :
    (honest.card : K) * low ≤ ∑ k ∈ S.erase j, conflict (opinions.get j) (opinions.get k) := by
  calc (honest.card : K) * low ≤ ∑ k ∈ honest, conflict (opinions.get j) (opinions.get k) := by
        rw [← nsmul_eq_mul]
        apply Finset.card_nsmul_le_sum
        intro k hk
        rw [conflict_comm]
        exact (h.dissent k hk j hj).1
    _ ≤ ∑ k ∈ S.erase j, conflict (opinions.get j) (opinions.get k) := by
        apply Finset.sum_le_sum_of_subset_of_nonneg
        · intro k hk
          exact Finset.mem_erase.2 ⟨fun same => hj (same ▸ hk), within hk⟩
        · intro k _ _
          exact conflict_nonneg _ _

/-- A liar is more discordant than every honest source. -/
theorem meanConflict_lt (h : LyingMinority opinions honest low high) (within : honest ⊆ S)
    (hi : i ∈ honest) (hS : j ∈ S) (hj : j ∉ honest) :
    meanConflict opinions S i < meanConflict opinions S j := by
  have several : 1 < S.card :=
    Finset.one_lt_card.2 ⟨i, within hi, j, hS, fun same => hj (same ▸ hi)⟩
  have positive : (0 : K) < ((S.card - 1 : ℕ) : K) := Nat.cast_pos.2 (by omega)
  apply div_lt_div_of_pos_right _ positive
  exact (h.sum_conflict_le hi hj).trans_lt (h.outweighed.trans_le (h.le_sum_conflict within hj))

variable {threshold : K} {limit : ℕ} {dropped : List (Fin opinions.length)}

theorem notMem_of_drops (h : LyingMinority opinions honest low high) (nonneg : 0 ≤ threshold)
    (within : honest ⊆ S) (next : Drops opinions threshold S i) : i ∉ honest := by
  intro hi
  by_cases lie : ∃ j ∈ S, j ∉ honest
  · obtain ⟨j, hS, hj⟩ := lie
    exact absurd (next.worst.1.2 j hS) (not_le.2 (h.meanConflict_lt within hi hS hj))
  · have none : S \ honest = ∅ := by
      simpa [Finset.sdiff_eq_empty_iff_subset, Finset.subset_iff] using lie
    have silent : meanConflict opinions S i = 0 := by
      rw [meanConflict, h.sum_conflict hi, none, Finset.sum_empty, zero_div]
    exact absurd next.above (not_lt.2 (silent ▸ nonneg))

theorem notMem_of_greedy (h : LyingMinority opinions honest low high) (nonneg : 0 ≤ threshold)
    (within : honest ⊆ S) (greedy : Greedy opinions threshold limit S dropped) :
    ∀ i ∈ honest, i ∉ dropped := by
  induction dropped generalizing limit S with
  | nil => simp
  | cons first later ih =>
    obtain ⟨less, -, next, greedy⟩ := greedy_cons_iff.1 greedy
    have lie := h.notMem_of_drops nonneg within next
    have within' : honest ⊆ S.erase first := by
      intro k hk
      exact Finset.mem_erase.2 ⟨fun same => lie (same ▸ hk), within hk⟩
    intro i hi
    rw [List.mem_cons, not_or]
    exact ⟨fun same => lie (same ▸ hi), ih within' greedy i hi⟩

theorem card_compl_lt (h : LyingMinority opinions honest low high) (some : honest.Nonempty) :
    honestᶜ.card < honest.card := by
  obtain ⟨i, hi⟩ := some
  rcases honestᶜ.eq_empty_or_nonempty with none | ⟨j, hj⟩
  · rw [none, Finset.card_empty]
    exact Finset.card_pos.2 ⟨i, hi⟩
  · have between := h.dissent i hi j (Finset.mem_compl.1 hj)
    have nonneg : 0 ≤ high := (conflict_nonneg _ _).trans between.2
    have outnumbered : (honestᶜ.card : K) * high < honest.card * high :=
      h.outweighed.trans_le
        (mul_le_mul_of_nonneg_left (between.1.trans between.2) (Nat.cast_nonneg _))
    exact Nat.cast_lt.1 (lt_of_mul_lt_mul_right outnumbered nonneg)

/-- Where a lie remains beside two honest opinions, it may still be dropped. -/
theorem not_atRest (h : LyingMinority opinions honest low high) (two : 2 ≤ honest.card)
    (sharp : threshold < honest.card * low / ((opinions.length - 1 : ℕ) : K))
    (within : honest ⊆ S) (hS : j ∈ S) (hj : j ∉ honest) :
    ¬ AtRest opinions threshold S := by
  have three : 3 ≤ S.card := by
    have more := Finset.card_le_card (Finset.insert_subset hS within)
    rw [Finset.card_insert_of_notMem hj] at more
    omega
  have most : S.card ≤ opinions.length := by simpa using S.card_le_univ
  obtain ⟨i, hi⟩ := Finset.card_pos.1 (by omega : 0 < honest.card)
  have weight : 0 ≤ (honest.card : K) * low := by
    have nonneg : 0 ≤ high := (conflict_nonneg _ _).trans (h.dissent i hi j hj).2
    exact (mul_nonneg (Nat.cast_nonneg _) nonneg).trans h.outweighed.le
  have above : threshold < meanConflict opinions S j := by
    calc threshold < honest.card * low / ((opinions.length - 1 : ℕ) : K) := sharp
      _ ≤ honest.card * low / ((S.card - 1 : ℕ) : K) :=
          div_le_div_of_nonneg_left weight (Nat.cast_pos.2 (by omega)) (Nat.cast_le.2 (by omega))
      _ ≤ meanConflict opinions S j :=
          div_le_div_of_nonneg_right (h.le_sum_conflict within hj) (Nat.cast_nonneg _)
  rintro (few | calm)
  · omega
  · exact absurd (calm j hS) (not_le.2 above)

/-- All lies are dropped where the threshold is low and the limit allows for them. -/
theorem toFinset_dropped (h : LyingMinority opinions honest low high) (nonneg : 0 ≤ threshold)
    (two : 2 ≤ honest.card)
    (sharp : threshold < honest.card * low / ((opinions.length - 1 : ℕ) : K))
    (room : honestᶜ.card ≤ limit)
    (greedy : Greedy opinions threshold limit Finset.univ dropped) :
    dropped.toFinset = honestᶜ := by
  have spared := h.notMem_of_greedy nonneg (Finset.subset_univ honest) greedy
  have lies : dropped.toFinset ⊆ honestᶜ := by
    intro i hi
    exact Finset.mem_compl.2 (fun hi' => spared i hi' (List.mem_toFinset.1 hi))
  rcases greedy.stops with full | rest
  · apply Finset.eq_of_subset_of_card_le lies
    rw [List.toFinset_card_of_nodup greedy.nodup_subset.1, full]
    exact room
  · apply lies.antisymm
    intro j hj
    by_contra left
    have within : honest ⊆ Finset.univ \ dropped.toFinset := by
      intro i hi
      simpa using spared i hi
    exact h.not_atRest two sharp within (by simpa using left) (Finset.mem_compl.1 hj) rest

end LyingMinority

/-- Robust fusion drops no honest opinion. It drops all lies, and nothing else, where two opinions
are honest, the threshold is low and the limit, if one is given, allows for as many removals. -/
theorem robustFuse_resists_minority {threshold : K} {limit : Option ℕ} {r : RobustFusion K}
    (h : LyingMinority opinions honest low high)
    (made : robustFuse opinions threshold limit = .ok r) :
    (∀ i ∈ honest, i.val ∉ r.removed) ∧
      (2 ≤ honest.card → (∀ most, limit = some most → honestᶜ.card ≤ most) →
        threshold < honest.card * low / ((opinions.length - 1 : ℕ) : K) →
        r.removed.Nodup ∧ (∀ k, k ∈ r.removed ↔ ∃ i ∉ honest, i.val = k) ∧
          cumulativeFuse (inOrder opinions honest) = .ok r.fused) := by
  obtain ⟨-, score, dropped, run⟩ := robustFuse_eq_ok_iff_exists_run.1 made
  rw [run.removed]
  constructor
  · intro i hi hr
    obtain ⟨j, hj, same⟩ := List.mem_map.1 hr
    have spared := h.notMem_of_greedy score.1 (Finset.subset_univ honest) run.greedy
    exact spared i hi (Fin.ext same ▸ hj)
  · intro two room sharp
    have allowed : honestᶜ.card ≤ limit.getD (opinions.length / 2) := by
      cases limit with
      | none =>
        have fewer := h.card_compl_lt (Finset.card_pos.1 (by omega : 0 < honest.card))
        have all := honest.card_add_card_compl
        rw [Fintype.card_fin] at all
        rw [Option.getD_none]
        omega
      | some most => exact room most rfl
    have lies := h.toFinset_dropped score.1 two sharp allowed run.greedy
    have dropped_iff (i : Fin opinions.length) : i ∈ dropped ↔ i ∉ honest := by
      rw [← List.mem_toFinset, lies, Finset.mem_compl]
    refine ⟨run.greedy.nodup_subset.1.map Fin.val_injective, ?_, ?_⟩
    · intro k
      simp only [List.mem_map, dropped_iff]
    · have fused := run.fused
      rwa [lies, ← Finset.compl_eq_univ_sdiff, compl_compl] at fused

def testimonies : List (Opinion ℚ) :=
  [⟨4 / 5, 0, 1 / 5, 1 / 2, by decide +kernel⟩, ⟨0, 9 / 10, 1 / 10, 1 / 2, by decide +kernel⟩,
    ⟨3 / 5, 0, 2 / 5, 1 / 2, by decide +kernel⟩, ⟨9 / 10, 0, 1 / 10, 1 / 2, by decide +kernel⟩]

def truthful : Finset (Fin testimonies.length) :=
  Finset.univ.filter (fun i => i.val ≠ 1)

theorem robustFuse_resists_minority_testimonies :
    LyingMinority testimonies truthful (27 / 50) (81 / 100) ∧
      ∃ r, robustFuse testimonies (1 / 10) none = .ok r ∧ (∀ k, k ∈ r.removed ↔ k = 1) := by
  have h : LyingMinority testimonies truthful (27 / 50) (81 / 100) :=
    ⟨by decide +kernel, by decide +kernel, by decide +kernel⟩
  obtain ⟨r, made⟩ := exists_eq_ok_of_isOk
    (by decide +kernel : (robustFuse testimonies (1 / 10) none).isOk = true)
  obtain ⟨-, lies⟩ := robustFuse_resists_minority h made
  obtain ⟨-, dropped, -⟩ := lies (by decide +kernel) (by simp) (by decide +kernel)
  refine ⟨h, r, made, fun k => (dropped k).trans ?_⟩
  constructor
  · rintro ⟨i, lie, rfl⟩
    simpa [truthful] using lie
  · rintro rfl
    exact ⟨⟨1, by decide⟩, by simp [truthful], rfl⟩

end Credence.Opinion
