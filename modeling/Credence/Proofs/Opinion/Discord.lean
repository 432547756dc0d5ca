import Mathlib.Algebra.BigOperators.Fin
import Mathlib.Data.Finset.Sort
import Mathlib.Data.Fintype.BigOperators
import Mathlib.Order.Bounds.Basic
import Credence.Opinion.Discord
import Credence.Proofs.Opinion.Exact
import Credence.Proofs.Scalar.Greatest

/-! # Greedy removal

Outliers are dropped one after the other. The opinions that remain are told by the set of their
positions in the input, which a removal makes smaller by one and otherwise leaves as it is. In
these terms each removal takes the first of the most discordant positions, and the removals end
where the limit, the number of opinions or the threshold says so. This determines them.
-/

namespace Credence.Opinion
open Scalar (InUnit)
variable {K : Type} [Field K] [LinearOrder K]

theorem conflict_comm (x y : Opinion K) : conflict x y = conflict y x := by
  unfold conflict
  rw [mul_comm x.belief, mul_comm x.disbelief, add_comm]

variable (opinions : List (Opinion K))

/-- The mean conflict of the opinion at a position with those at other positions. -/
def meanConflict (S : Finset (Fin opinions.length)) (i : Fin opinions.length) : K :=
  (∑ j ∈ S.erase i, conflict (opinions.get i) (opinions.get j)) / ((S.card - 1 : ℕ) : K)

def inOrder (S : Finset (Fin opinions.length)) : List (Opinion K) :=
  (S.sort (· ≤ ·)).map opinions.get

def placedAt (i : Fin opinions.length) : Placed K := ⟨i, opinions.get i⟩

def placedInOrder (S : Finset (Fin opinions.length)) : List (Placed K) :=
  (S.sort (· ≤ ·)).map (placedAt opinions)

theorem place_eq : place opinions = placedInOrder opinions Finset.univ := by
  rw [placedInOrder, Fin.sort_univ]
  apply List.ext_getElem <;> simp [place, placedAt]

theorem map_opinion_placedInOrder (S : Finset (Fin opinions.length)) :
    (placedInOrder opinions S).map Placed.opinion = inOrder opinions S :=
  List.map_map

theorem length_placedInOrder (S : Finset (Fin opinions.length)) :
    (placedInOrder opinions S).length = S.card := by
  simp [placedInOrder]

theorem sort_erase {n : ℕ} (S : Finset (Fin n)) (i : Fin n) :
    (S.sort (· ≤ ·)).filter (fun j => j != i) = (S.erase i).sort (· ≤ ·) := by
  have distinct := (S.sort_nodup (· ≤ ·)).filter (fun j => j != i)
  have ordered := (S.pairwise_sort (· ≤ ·)).filter (fun j => j != i)
  have same : ((S.sort (· ≤ ·)).filter (fun j => j != i)).toFinset = S.erase i := by
    ext j
    simp [and_comm]
  rw [← same, (List.toFinset_sort (· ≤ ·) distinct).2 ordered]

theorem filter_placedInOrder (S : Finset (Fin opinions.length)) (i : Fin opinions.length) :
    (placedInOrder opinions S).filter (fun y => y.index != i.val) =
      placedInOrder opinions (S.erase i) := by
  have agree : ((fun y : Placed K => y.index != i.val) ∘ placedAt opinions) = fun j => j != i := by
    funext j
    by_cases h : j = i <;> simp [bne, placedAt, h, Fin.val_ne_of_ne]
  rw [placedInOrder, List.filter_map, agree, sort_erase, placedInOrder]

theorem discord_placedInOrder (S : Finset (Fin opinions.length)) (i : Fin opinions.length) :
    discord (placedInOrder opinions S) (placedAt opinions i) = meanConflict opinions S i := by
  change Scalar.sum (((placedInOrder opinions S).filter (fun y => y.index != i.val)).map _) / _ = _
  rw [filter_placedInOrder, Scalar.sum_eq, length_placedInOrder, placedInOrder, List.map_map,
    ← List.sum_toFinset _ (Finset.sort_nodup _ _), Finset.sort_toFinset]
  rfl

/-- The first of the most discordant positions of a set. -/
def MostDiscordant (S : Finset (Fin opinions.length)) (i : Fin opinions.length) : Prop :=
  IsLeast {i | i ∈ S ∧ ∀ j ∈ S, meanConflict opinions S j ≤ meanConflict opinions S i} i

theorem ranks_meanConflict (S : Finset (Fin opinions.length)) : Ranks (fun _ => True)
    (fun i j => meanConflict opinions S i ≤ meanConflict opinions S j)
    (fun i j => decide (meanConflict opinions S j < meanConflict opinions S i)) where
  trans _ _ _ := le_trans
  total _ _ := le_total _ _
  beats_iff _ _ := by simp

theorem mostDiscordant?_placedInOrder {S : Finset (Fin opinions.length)} (some : S.Nonempty) :
    ∃ i, MostDiscordant opinions S i ∧
      mostDiscordant? (placedInOrder opinions S) =
        .some (placedAt opinions i, meanConflict opinions S i) := by
  have scored : (placedInOrder opinions S).map
        (fun x => (x, discord (placedInOrder opinions S) x)) =
      (S.sort (· ≤ ·)).map (fun i => (placedAt opinions i, meanConflict opinions S i)) := by
    conv_lhs => rw [placedInOrder, List.map_map]
    apply List.map_congr_left
    intro i _
    exact congrArg (Prod.mk _) (discord_placedInOrder opinions S i)
  have filled : S.sort (· ≤ ·) ≠ [] := by
    apply List.ne_nil_of_length_pos
    simpa using some
  obtain ⟨first, rest, sorted⟩ := List.exists_cons_of_ne_nil filled
  have ordered : (first :: rest).Pairwise (fun i j => i.val < j.val) :=
    sorted ▸ S.sortedLT_sort.pairwise
  have best := (ranks_meanConflict opinions S).firstGreatest_leader (fun _ _ => trivial) ordered
  have members (j : Fin opinions.length) : j ∈ first :: rest ↔ j ∈ S := by
    rw [← sorted, Finset.mem_sort]
  simp only [members] at best
  refine ⟨_, ⟨⟨best.mem, best.greatest⟩, fun j hj => best.first j hj.1 hj.2⟩, ?_⟩
  rw [mostDiscordant?, scored, sorted, List.map_cons]
  exact congrArg Option.some (leader_map (fun next best => decide (best.2 < next.2))
    (fun i => (placedAt opinions i, meanConflict opinions S i)) first rest)

/-- No position of a set may be dropped any more. -/
def AtRest (threshold : K) (S : Finset (Fin opinions.length)) : Prop :=
  S.card < 3 ∨ ∀ i ∈ S, meanConflict opinions S i ≤ threshold

/-- A position is the next one of a set to be dropped. -/
structure Drops (threshold : K) (S : Finset (Fin opinions.length)) (i : Fin opinions.length) :
    Prop where
  enough : 3 ≤ S.card
  worst : MostDiscordant opinions S i
  above : threshold < meanConflict opinions S i

/-- Positions are dropped greedily from a set: each is the next one of what the ones before it
leave, and after the last none may be dropped. -/
structure Greedy (threshold : K) (limit : ℕ) (S : Finset (Fin opinions.length))
    (dropped : List (Fin opinions.length)) : Prop where
  within : dropped.length ≤ limit
  drops : ∀ t (h : t < dropped.length),
    Drops opinions threshold (S \ (dropped.take t).toFinset) dropped[t]
  stops : dropped.length = limit ∨ AtRest opinions threshold (S \ dropped.toFinset)

variable {opinions} {threshold : K} {limit : ℕ} {S : Finset (Fin opinions.length)}
  {i : Fin opinions.length} {dropped : List (Fin opinions.length)}

theorem Drops.mem (h : Drops opinions threshold S i) : i ∈ S := h.worst.1.1

theorem Drops.not_atRest (h : Drops opinions threshold S i) :
    ¬ AtRest opinions threshold S := by
  rintro (few | low)
  · exact absurd h.enough (not_le.2 few)
  · exact absurd h.above (not_lt.2 (low i h.mem))

theorem Drops.unique {j : Fin opinions.length} (h : Drops opinions threshold S i)
    (h' : Drops opinions threshold S j) : i = j :=
  h.worst.unique h'.worst

theorem greedy_nil_iff :
    Greedy opinions threshold limit S [] ↔ limit = 0 ∨ AtRest opinions threshold S := by
  constructor
  · intro h
    simpa [eq_comm] using h.stops
  · intro h
    exact ⟨Nat.zero_le limit, by simp, by simpa [eq_comm] using h⟩

theorem sdiff_cons (S : Finset (Fin opinions.length)) (i : Fin opinions.length)
    (dropped : List (Fin opinions.length)) :
    S \ (i :: dropped).toFinset = S.erase i \ dropped.toFinset := by
  ext j
  simp
  tauto

theorem greedy_cons_iff :
    Greedy opinions threshold limit S (i :: dropped) ↔
      ∃ less, limit = less + 1 ∧ Drops opinions threshold S i ∧
        Greedy opinions threshold less (S.erase i) dropped := by
  constructor
  · intro h
    obtain ⟨less, rfl⟩ : ∃ less, limit = less + 1 :=
      Nat.exists_eq_succ_of_ne_zero (Nat.ne_of_gt (Nat.lt_of_lt_of_le (by simp) h.within))
    have first := h.drops 0 (Nat.zero_lt_succ _)
    rw [List.take_zero, List.toFinset_nil, Finset.sdiff_empty] at first
    refine ⟨less, rfl, first, ⟨by simpa using h.within, ?_, ?_⟩⟩
    · intro t ht
      have later := h.drops (t + 1) (Nat.succ_lt_succ ht)
      rw [List.take_succ_cons, sdiff_cons] at later
      exact later
    · simpa only [sdiff_cons, List.length_cons, Nat.add_right_cancel_iff] using h.stops
  · rintro ⟨less, rfl, first, later⟩
    refine ⟨by simpa using later.within, ?_, ?_⟩
    · intro t ht
      cases t with
      | zero => simpa using first
      | succ t =>
        rw [List.take_succ_cons, sdiff_cons]
        exact later.drops t (Nat.lt_of_succ_lt_succ ht)
    · simpa only [sdiff_cons, List.length_cons, Nat.add_right_cancel_iff] using later.stops

theorem Greedy.unique {dropped' : List (Fin opinions.length)}
    (h : Greedy opinions threshold limit S dropped)
    (h' : Greedy opinions threshold limit S dropped') : dropped = dropped' := by
  induction dropped generalizing limit S dropped' with
  | nil =>
    cases dropped' with
    | nil => rfl
    | cons i later =>
      obtain ⟨less, rfl, first, -⟩ := greedy_cons_iff.1 h'
      exact absurd (greedy_nil_iff.1 h) (by simp [first.not_atRest])
  | cons i later ih =>
    obtain ⟨less, rfl, first, h⟩ := greedy_cons_iff.1 h
    cases dropped' with
    | nil => exact absurd (greedy_nil_iff.1 h') (by simp [first.not_atRest])
    | cons j later' =>
      obtain ⟨less', same, first', h'⟩ := greedy_cons_iff.1 h'
      obtain rfl : less = less' := Nat.succ.inj same
      obtain rfl := first.unique first'
      rw [ih h h']

theorem Greedy.nodup_subset (h : Greedy opinions threshold limit S dropped) :
    dropped.Nodup ∧ ∀ i ∈ dropped, i ∈ S := by
  induction dropped generalizing limit S with
  | nil => simp
  | cons i later ih =>
    obtain ⟨less, -, first, h⟩ := greedy_cons_iff.1 h
    obtain ⟨distinct, within⟩ := ih h
    refine ⟨List.nodup_cons.2 ⟨fun again => ?_, distinct⟩, List.forall_mem_cons.2 ⟨first.mem, ?_⟩⟩
    · exact Finset.notMem_erase i S (within i again)
    · exact fun j hj => Finset.mem_of_mem_erase (within j hj)

/-- Two opinions remain at least, unless there were fewer from the start. -/
theorem Greedy.length_le (h : Greedy opinions threshold limit S dropped) :
    dropped.length ≤ S.card - 2 := by
  induction dropped generalizing limit S with
  | nil => exact Nat.zero_le _
  | cons i later ih =>
    obtain ⟨less, -, first, h⟩ := greedy_cons_iff.1 h
    have enough := first.enough
    have fewer := ih h
    rw [Finset.card_erase_of_mem first.mem] at fewer
    rw [List.length_cons]
    omega

theorem dropDiscordant_of_atRest (rest : AtRest opinions threshold S) :
    dropDiscordant threshold limit (placedInOrder opinions S) = ([], placedInOrder opinions S) := by
  cases limit with
  | zero => rfl
  | succ limit =>
    rw [dropDiscordant, length_placedInOrder]
    rcases rest with few | low
    · rw [if_pos few]
    · by_cases few : S.card < 3
      · rw [if_pos few]
      · obtain ⟨i, worst, found⟩ := mostDiscordant?_placedInOrder opinions
          (Finset.card_pos.1 (by omega : 0 < S.card))
        rw [if_neg few, found]
        exact if_pos (low i worst.1.1)

theorem dropDiscordant_of_drops (next : Drops opinions threshold S i) {removed : List ℕ}
    {kept : List (Placed K)}
    (later : dropDiscordant threshold limit (placedInOrder opinions (S.erase i)) =
      (removed, kept)) :
    dropDiscordant threshold (limit + 1) (placedInOrder opinions S) = (i.val :: removed, kept) := by
  obtain ⟨j, worst, found⟩ := mostDiscordant?_placedInOrder opinions ⟨i, next.mem⟩
  obtain rfl : i = j := next.worst.unique worst
  rw [dropDiscordant, length_placedInOrder, if_neg (not_lt.2 next.enough), found]
  simp only [if_neg (not_le.2 next.above), placedAt, filter_placedInOrder, later]

theorem atRest_or_drops (opinions : List (Opinion K)) (threshold : K)
    (S : Finset (Fin opinions.length)) :
    AtRest opinions threshold S ∨ ∃ i, Drops opinions threshold S i := by
  by_cases few : S.card < 3
  · exact .inl (.inl few)
  obtain ⟨i, worst, -⟩ := mostDiscordant?_placedInOrder opinions
    (Finset.card_pos.1 (by omega : 0 < S.card))
  by_cases low : meanConflict opinions S i ≤ threshold
  · exact .inl (.inr fun j hj => (worst.1.2 j hj).trans low)
  · exact .inr ⟨i, not_lt.1 few, worst, not_le.1 low⟩

/-- What the rounds drop from a set is dropped greedily, and the others remain. -/
theorem exists_greedy (opinions : List (Opinion K)) (threshold : K) (limit : ℕ)
    (S : Finset (Fin opinions.length)) :
    ∃ dropped, Greedy opinions threshold limit S dropped ∧
      dropDiscordant threshold limit (placedInOrder opinions S) =
        (dropped.map Fin.val, placedInOrder opinions (S \ dropped.toFinset)) := by
  induction limit generalizing S with
  | zero => exact ⟨[], greedy_nil_iff.2 (.inl rfl), by simp [dropDiscordant]⟩
  | succ limit ih =>
    rcases atRest_or_drops opinions threshold S with rest | ⟨i, next⟩
    · exact ⟨[], greedy_nil_iff.2 (.inr rest), by simp [dropDiscordant_of_atRest rest]⟩
    · obtain ⟨later, greedy, run⟩ := ih (S.erase i)
      refine ⟨i :: later, greedy_cons_iff.2 ⟨limit, rfl, next, greedy⟩, ?_⟩
      rw [dropDiscordant_of_drops next run, sdiff_cons, List.map_cons]

theorem robustFuse_eq_ok_iff {opinions : List (Opinion K)} {threshold : K} {limit : Option ℕ}
    {r : RobustFusion K} {removed : List ℕ} {kept : List (Placed K)}
    (run : dropDiscordant threshold (limit.getD (opinions.length / 2)) (place opinions) =
      (removed, kept)) :
    robustFuse opinions threshold limit = .ok r ↔ opinions ≠ [] ∧ InUnit threshold ∧
      r.removed = removed ∧ cumulativeFuse (kept.map Placed.opinion) = .ok r.fused := by
  unfold robustFuse
  cases opinions with
  | nil => simp [bind, Except.bind, throw, throwThe, MonadExceptOf.throw]
  | cons first rest =>
    rw [if_neg (by simp)]
    simp only [run, bind_eq_ok_iff, validated_eq_ok_iff]
    constructor
    · rintro ⟨u, checked, fused, made, h⟩
      cases h
      exact ⟨List.cons_ne_nil first rest, checkScore_eq_ok_iff.1 checked, rfl, made⟩
    · rintro ⟨-, score, rfl, made⟩
      exact ⟨(), checkScore_eq_ok_iff.2 score, r.fused, made, rfl⟩

/-- Positions that robust fusion drops, and what it makes of the others. -/
structure RobustRun (opinions : List (Opinion K)) (threshold : K) (limit : Option ℕ)
    (dropped : List (Fin opinions.length)) (r : RobustFusion K) : Prop where
  greedy : Greedy opinions threshold (limit.getD (opinions.length / 2)) Finset.univ dropped
  removed : r.removed = dropped.map Fin.val
  fused : cumulativeFuse (inOrder opinions (Finset.univ \ dropped.toFinset)) = .ok r.fused

theorem robustFuse_eq_ok_iff_exists_run {opinions : List (Opinion K)} {threshold : K}
    {limit : Option ℕ} {r : RobustFusion K} :
    robustFuse opinions threshold limit = .ok r ↔ opinions ≠ [] ∧ InUnit threshold ∧
      ∃ dropped, RobustRun opinions threshold limit dropped r := by
  obtain ⟨dropped, greedy, run⟩ := exists_greedy opinions threshold
    (limit.getD (opinions.length / 2)) Finset.univ
  rw [← place_eq] at run
  rw [robustFuse_eq_ok_iff run, map_opinion_placedInOrder]
  refine and_congr_right fun _ => and_congr_right fun _ => ⟨?_, ?_⟩
  · rintro ⟨removed, fused⟩
    exact ⟨dropped, greedy, removed, fused⟩
  · rintro ⟨dropped', h⟩
    obtain rfl := h.greedy.unique greedy
    exact ⟨h.removed, h.fused⟩

/-- Robust fusion drops distinct positions greedily, leaves two at least, and fuses what remains;
it succeeds where there are opinions, the threshold is a score and this fusion succeeds. -/
theorem robustFuse_eq_ok_iff_greedy {opinions : List (Opinion K)} {threshold : K}
    {limit : Option ℕ} {r : RobustFusion K} :
    robustFuse opinions threshold limit = .ok r ↔
      opinions ≠ [] ∧ InUnit threshold ∧ ∃ dropped : List (Fin opinions.length),
        r.removed = dropped.map Fin.val ∧ dropped.Nodup ∧
        dropped.length ≤ opinions.length - 2 ∧
        Greedy opinions threshold (limit.getD (opinions.length / 2)) Finset.univ dropped ∧
        cumulativeFuse (inOrder opinions (Finset.univ \ dropped.toFinset)) = .ok r.fused := by
  rw [robustFuse_eq_ok_iff_exists_run]
  refine and_congr_right fun _ => and_congr_right fun _ => exists_congr fun dropped => ?_
  constructor
  · intro h
    have few := h.greedy.length_le
    rw [Finset.card_univ, Fintype.card_fin] at few
    exact ⟨h.removed, h.greedy.nodup_subset.1, few, h.greedy, h.fused⟩
  · rintro ⟨removed, -, -, greedy, fused⟩
    exact ⟨greedy, removed, fused⟩

end Credence.Opinion
