import Credence.Proofs.Contest.Vote
import Credence.Proofs.Scalar.Tenths

/-! # Votes without agreement

Where no two candidates assert one value, each of them leads a group of its own. With exact scores
such a group scores what its member states, so a vote elects whom the surest strategy takes, held
with the confidence that it competes with.
-/

namespace Credence
open Scalar (InUnit)

namespace Resolution
variable {R : Type} [Scalar R] {assertions : List (Assertion R)}

/-- No two assertions assert one value. -/
def Dissenting (assertions : List (Assertion R)) : Prop :=
  (assertions.map Assertion.value).Pairwise (fun v w => v.same w = false)

theorem Dissenting.not_same (apart : Dissenting assertions) {c d : Candidate R}
    (hc : c ∈ candidatesOf assertions) (hd : d ∈ candidatesOf assertions)
    (before : c.index < d.index) : c.literal.same d.literal = false := by
  have pairs := List.pairwise_map.1 apart
  rw [List.pairwise_iff_getElem] at pairs
  obtain ⟨hi, found⟩ := List.getElem?_eq_some_iff.1 (mem_candidatesOf.1 hc)
  obtain ⟨hj, found'⟩ := List.getElem?_eq_some_iff.1 (mem_candidatesOf.1 hd)
  have differ := pairs c.index d.index hi hj before
  rw [found, found'] at differ
  exact differ

theorem Dissenting.not_agrees (apart : Dissenting assertions) {c d : Candidate R}
    (hc : c ∈ candidatesOf assertions) (hd : d ∈ candidatesOf assertions)
    (before : c.index < d.index) : ¬ c.Agrees d := by
  rintro (rfl | same)
  · exact Nat.lt_irrefl _ before
  · rw [apart.not_same hc hd before] at same
    cases same

theorem Dissenting.leads_iff (apart : Dissenting assertions) {c : Candidate R} :
    Leads assertions c ↔ c ∈ candidatesOf assertions := by
  refine ⟨Leads.mem, fun hc => Resolution.leads_iff.2 ⟨hc, fun d before hd => ?_⟩⟩
  exact apart.not_agrees hd.mem hc before

theorem Dissenting.joins_iff (apart : Dissenting assertions) {c l : Candidate R} :
    Joins assertions c l ↔ c ∈ candidatesOf assertions ∧ c = l := by
  constructor
  · intro joins
    exact ⟨joins.mem, ((apart.leads_iff.2 joins.mem).joins).unique joins⟩
  · rintro ⟨hc, rfl⟩
    exact (apart.leads_iff.2 hc).joins

theorem Dissenting.groupOf_eq (apart : Dissenting assertions) {c : Candidate R}
    (hc : c ∈ candidatesOf assertions) : groupOf assertions c = [c] := by
  have member : c ∈ groupOf assertions c := mem_groupOf.2 (apart.joins_iff.2 ⟨hc, rfl⟩)
  have alone : ∀ d ∈ groupOf assertions c, d = c := fun d hd =>
    (apart.joins_iff.1 (mem_groupOf.1 hd)).2
  have ordered := pairwise_groupOf assertions c
  match groupOf assertions c, member, alone, ordered with
  | [d], _, alone, _ => rw [alone d List.mem_cons_self]
  | d :: e :: rest, _, alone, ordered =>
    have before : d.index < e.index := List.rel_of_pairwise_cons ordered List.mem_cons_self
    rw [alone d List.mem_cons_self, alone e (by simp)] at before
    exact absurd before (Nat.lt_irrefl _)

end Resolution

open Resolution
variable {K : Type} [Field K] [LinearOrder K] {assertions : List (Assertion K)}

theorem Resolution.pooled_singleton (c : Candidate K) :
    pooled [c] = c.assertion.confidenceOrDefault := by
  simp [pooled, noisyOr_eq]

theorem Resolution.Dissenting.groupScore_eq (apart : Dissenting assertions) {c : Candidate K}
    (hc : c ∈ candidatesOf assertions) :
    groupScore assertions c = c.assertion.confidenceOrDefault := by
  rw [groupScore, apart.groupOf_eq hc, pooled_singleton]

variable [IsStrictOrderedRing K] [NumberText K]

/-- Where no two assertions assert one value, a vote elects the assertion that the surest strategy
takes. The winner is the same but for its confidence, which the vote always states: it is the one
with which the assertion competes. -/
theorem vote_without_agreement (several : 2 ≤ assertions.length)
    (units : ∀ a ∈ assertions, ∀ s, a.confidence = some s → InUnit s)
    (apart : Dissenting assertions) :
    ∃ r r', resolve assertions .weightedVote = .ok r ∧ resolve assertions .highest = .ok r' ∧
      r.winnerIndex = r'.winnerIndex ∧
      r.winner = { r'.winner with confidence := some r'.winner.confidenceOrDefault } := by
  obtain ⟨r, l, c, voted, decides⟩ := exists_voteDecides several units
  have present : assertions ≠ [] :=
    List.length_pos_iff.1 (Nat.lt_of_lt_of_le Nat.zero_lt_two several)
  obtain ⟨r', taken⟩ := exists_resolve scoresCombine .highest present units
  have surest := firstGreatest_of_resolve ranks_surer (fun _ _ => ⟨_, rfl⟩) taken
  obtain ⟨hc, rfl⟩ := apart.joins_iff.1 decides.chosen.mem
  -- The greatest leaders are the surest candidates.
  have same : c.index = r'.winnerIndex := by
    refine FirstGreatest.place_unique ⟨hc, fun d hd => ?_, fun d hd most => ?_⟩ surest
    · have below := decides.elected.greatest d (apart.leads_iff.2 hd)
      rwa [apart.groupScore_eq hd, apart.groupScore_eq hc] at below
    · refine decides.elected.first d (apart.leads_iff.2 hd) (fun e he => ?_)
      rw [apart.groupScore_eq hd, apart.groupScore_eq he.mem]
      exact most e he.mem
  have winner : r'.winner = c.assertion :=
    congrArg Candidate.assertion (eq_of_index_eq surest.mem hc same.symm)
  refine ⟨r, r', voted, taken, decides.index.trans same, ?_⟩
  rw [decides.winner, apart.groupScore_eq hc, winner]

def strangers : List (Assertion ℚ) :=
  [{ Assertion.ofLiteral (.text "Ada") with confidence := some (2 / 5) },
    Assertion.ofLiteral (.text "Ida")]

theorem vote_without_agreement_strangers :
    ∃ r r', resolve strangers .weightedVote = .ok r ∧ resolve strangers .highest = .ok r' ∧
      r.winnerIndex = r'.winnerIndex ∧
      r.winner = { r'.winner with confidence := some r'.winner.confidenceOrDefault } ∧
      r.winnerIndex = 1 := by
  have apart : Dissenting strangers := List.pairwise_pair.2 (by decide)
  obtain ⟨r, r', voted, taken, index, winner⟩ :=
    vote_without_agreement (show 2 ≤ strangers.length by decide) (by decide +kernel) apart
  have second : (resolve strangers .weightedVote).toOption.any (fun r => r.winnerIndex == 1) =
      true := by decide +kernel
  rw [voted] at second
  exact ⟨r, r', voted, taken, index, winner, beq_iff_eq.1 second⟩

end Credence
