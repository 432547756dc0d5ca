import Credence.Proofs.Contest.Choice
import Credence.Proofs.Contest.Groups

/-! # Whom a vote elects

A vote elects the first of the groups with the greatest score, where a group scores the probability
that at least one of its members is right. The winner is the first of the surest members of that
group, held with the score of the group.
-/

namespace Credence
open Scalar (InUnit)

namespace Resolution
variable {R : Type} [Scalar R]

/-- The probability that at least one of some candidates is right. -/
def pooled (cs : List (Candidate R)) : R :=
  noisyOr (cs.map (fun c => c.assertion.confidenceOrDefault))

noncomputable def groupScore (assertions : List (Assertion R)) (l : Candidate R) : R :=
  pooled (groupOf assertions l)

/-- What a vote decides: it elects the first leader of a group with the greatest score, and chooses
the first of the surest candidates that belong to this leader. -/
structure VoteDecides (assertions : List (Assertion R)) (r : Resolution R) (l c : Candidate R) :
    Prop where
  elected : FirstGreatest (fun d e => groupScore assertions d ≤ groupScore assertions e)
    Candidate.index (Leads assertions) l
  chosen : FirstGreatest Candidate.NoSurer Candidate.index (fun d => Joins assertions d l) c
  index : r.winnerIndex = c.index
  winner : r.winner = { c.assertion with confidence := some (groupScore assertions l) }

theorem Led.firstGreatest {assertions : List (Assertion R)} {gs : List (Group R)}
    (led : Led assertions gs) {g : Group R}
    (best : FirstGreatest (fun g h => pooled g.members ≤ pooled h.members)
      (fun g => g.first.index) (· ∈ gs) g) :
    FirstGreatest (fun d e => groupScore assertions d ≤ groupScore assertions e) Candidate.index
      (Leads assertions) g.first := by
  have score {h : Group R} (hh : h ∈ gs) : groupScore assertions h.first = pooled h.members := by
    rw [groupScore, led.members_eq h hh]
  have exists_group {d : Candidate R} (hd : Leads assertions d) : ∃ h ∈ gs, h.first = d :=
    List.mem_map.1 ((led.leads_iff_mem d).1 hd)
  refine ⟨led.leads best.mem, fun d hd => ?_, fun d hd most => ?_⟩
  · obtain ⟨h, hh, rfl⟩ := exists_group hd
    rw [score hh, score best.mem]
    exact best.greatest h hh
  · obtain ⟨h, hh, rfl⟩ := exists_group hd
    refine best.first h hh (fun h' hh' => ?_)
    rw [← score hh, ← score hh']
    exact most h'.first (led.leads hh')

variable [OrderedScores R]

theorem inUnit_pooled {cs : List (Candidate R)} (present : cs ≠ []) (scored : ∀ c ∈ cs, c.Scored) :
    InUnit (pooled cs) :=
  OrderedScores.inUnit_noisyOr (by simpa using present) (List.forall_mem_map.2 scored)

theorem ballot_eq_ok {g : Group R} (scored : ∀ c ∈ g.members, c.Scored) :
    ballot g = .ok ⟨g, pooled g.members⟩ := by
  have present : g.members.map (fun c => c.assertion.confidenceOrDefault) ≠ [] := by
    simp [Group.members]
  unfold ballot
  rw [OrderedScores.combine_noisyOr present (List.forall_mem_map.2 scored)]
  rfl

theorem ranks_pooled : Ranks (fun g : Group R => InUnit (pooled g.members))
    (fun g h => pooled g.members ≤ pooled h.members)
    (fun g h => decide (pooled h.members < pooled g.members)) :=
  OrderedScores.ranks.comap (fun g : Group R => pooled g.members)

variable [NumberText R] {assertions : List (Assertion R)} {first : Candidate R}
  {rest : List (Candidate R)} {r : Resolution R}

/-- The winner of a vote is the leader of the members of the leader of all groups. -/
theorem exists_leaders_of_vote (h : vote assertions first rest = .ok r)
    (scored : ∀ c ∈ first :: rest, c.Scored) :
    ∃ g gs elected chosen, groups (first :: rest) = g :: gs ∧
      elected = leader (fun h k => decide (pooled k.members < pooled h.members)) g gs ∧
      chosen = leader surer elected.first elected.rest ∧ r.winnerIndex = chosen.index ∧
      r.winner = { chosen.assertion with confidence := some (pooled elected.members) } := by
  have counted : (groups (first :: rest)).mapM ballot =
      .ok ((groups (first :: rest)).map (fun g => ⟨g, pooled g.members⟩)) := by
    rw [mapM_eq_ok_iff, List.forall₂_map_right_iff]
    exact List.forall₂_same.2 (fun g hg =>
      ballot_eq_ok (fun c hc => scored c (mem_of_mem_groups hg hc)))
  obtain ⟨g, gs, formed⟩ := List.exists_cons_of_ne_nil (groups_ne_nil first rest)
  refine ⟨g, gs, _, _, formed, rfl, rfl, ?_⟩
  rw [formed, List.map_cons] at counted
  obtain ⟨ballots, counted', h⟩ := bind_eq_ok_iff.1 h
  rw [formed, counted, Except.ok.injEq] at counted'
  subst counted'
  obtain ⟨winner, held, h⟩ := bind_eq_ok_iff.1 h
  cases h
  have lead := leader_map (fun next best : Ballot R => decide (best.score < next.score))
    (fun g : Group R => ⟨g, pooled g.members⟩) g gs
  rw [lead] at held ⊢
  obtain ⟨-, -, held⟩ := bind_eq_ok_iff.1 (validated_eq_ok_iff.1 held)
  exact ⟨rfl, (Except.ok.inj held).symm⟩

theorem exists_voteDecides_of_vote (hs : candidatesOf assertions = first :: rest)
    (scored : ∀ c ∈ first :: rest, c.Scored) (h : vote assertions first rest = .ok r) :
    ∃ l c, VoteDecides assertions r l c := by
  obtain ⟨g, gs, elected, chosen, formed, lead, lead', index, winner⟩ :=
    exists_leaders_of_vote h scored
  have led : Led assertions (g :: gs) := by
    rw [← formed, ← hs]
    exact led_groups assertions
  have members (k : Group R) (hk : k ∈ g :: gs) : ∀ c ∈ k.members, c.Scored :=
    fun c hc => scored c (mem_of_mem_groups (formed ▸ hk) hc)
  have behind := led.ordered
  rw [List.pairwise_map] at behind
  have best : FirstGreatest (fun g h => pooled g.members ≤ pooled h.members)
      (fun g => g.first.index) (· ∈ g :: gs) elected := by
    rw [lead]
    exact ranks_pooled.firstGreatest_leader
      (fun k hk => inUnit_pooled (List.cons_ne_nil _ _) (members k hk)) behind
  have own : elected.members = groupOf assertions elected.first :=
    led.members_eq elected best.mem
  have ordered : elected.members.Pairwise (fun c d => c.index < d.index) := by
    rw [own]
    exact pairwise_groupOf assertions elected.first
  have surest : FirstGreatest Candidate.NoSurer Candidate.index (· ∈ elected.members) chosen := by
    rw [lead']
    exact ranks_surer.firstGreatest_leader (members elected best.mem) ordered
  simp only [own, mem_groupOf] at surest
  rw [own] at winner
  exact ⟨elected.first, chosen, led.firstGreatest best, surest, index, winner⟩

theorem exists_voteDecides (several : 2 ≤ assertions.length)
    (units : ∀ a ∈ assertions, ∀ s, a.confidence = some s → InUnit s) :
    ∃ r l c, resolve assertions .weightedVote = .ok r ∧ VoteDecides assertions r l c := by
  have present : assertions ≠ [] :=
    List.length_pos_iff.1 (Nat.lt_of_lt_of_le Nat.zero_lt_two several)
  obtain ⟨r, decided⟩ := exists_resolve OrderedScores.toScoresCombine .weightedVote present units
  obtain ⟨first, rest, hs, voted⟩ := decided_of_several several decided
  have scored : ∀ c ∈ first :: rest, c.Scored := fun c hc => scored_of_units units (hs ▸ hc)
  obtain ⟨l, c, decides⟩ := exists_voteDecides_of_vote hs scored voted
  exact ⟨r, l, c, decided, decides⟩

end Resolution

open Resolution
variable {R : Type} [Scalar R] [OrderedScores R] [NumberText R]

/-- Every candidate belongs to exactly one group. A vote elects the first of the groups with the
greatest score and returns the candidates as they are. Its winner is the first of the surest members
of that group, and it is as it was given but for its confidence, which is the score of the group. -/
theorem vote_elects_first_greatest {assertions : List (Assertion R)}
    (several : 2 ≤ assertions.length)
    (units : ∀ a ∈ assertions, ∀ s, a.confidence = some s → InUnit s) :
    (∀ c ∈ candidatesOf assertions, ∃! l, Joins assertions c l) ∧
      ∃ r l c, resolve assertions .weightedVote = .ok r ∧ VoteDecides assertions r l c ∧
        r.candidates = assertions := by
  obtain ⟨r, l, c, decided, decides⟩ := exists_voteDecides several units
  exact ⟨fun c => existsUnique_joins, r, l, c, decided, decides, candidates_of_resolve decided⟩

def counted (n : Number Float) (held : Float) : Assertion Float :=
  { Assertion.ofLiteral (.number n) with confidence := some held }

def counts : List (Assertion Float) :=
  [counted (.whole 9007199254740992) 0.5, counted (.scalar 9007199254740992) 0.5,
    counted (.whole 9007199254740993) 0.7]

theorem vote_elects_first_greatest_counts :
    (∀ c ∈ candidatesOf counts, ∃! l, Joins counts c l) ∧
      ∃ r l c, resolve counts .weightedVote = .ok r ∧ VoteDecides counts r l c ∧
        r.candidates = counts ∧ r.winnerIndex = 0 := by
  obtain ⟨groups, r, l, c, resolved, decides, kept⟩ :=
    vote_elects_first_greatest (show 2 ≤ counts.length by decide) (by decide +kernel)
  have first : (resolve counts .weightedVote).toOption.any (fun r => r.winnerIndex == 0) =
      true := by decide +kernel
  rw [resolved] at first
  exact ⟨groups, r, l, c, resolved, decides, kept, beq_iff_eq.1 first⟩

end Credence
