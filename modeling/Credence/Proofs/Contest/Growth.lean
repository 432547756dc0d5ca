import Mathlib.Algebra.Order.Field.Basic
import Credence.Proofs.Contest.Pooling
import Credence.Proofs.Contest.Vote
import Credence.Proofs.Scalar.Tenths

/-! # One more vote

An assertion of what the leader of the elected group asserts joins this group and no other. The
score of the group does not fall, with exact scores, and all other groups stay as they are. So the
same group is elected again.
-/

namespace Credence
open Scalar (InUnit)

namespace Resolution

section
variable {R : Type} [Scalar R] {assertions : List (Assertion R)} {a : Assertion R}
  {l d : Candidate R}

/-- The groups that the last candidate does not join score as before. -/
theorem groupScore_append_of_ne (joins : Joins (assertions ++ [a]) ⟨assertions.length, a⟩ l)
    (apart : d ≠ l) : groupScore (assertions ++ [a]) d = groupScore assertions d := by
  rw [groupScore, groupOf_append_of_not_joins (fun joins' => apart (joins'.unique joins)),
    groupScore]

end

variable {K : Type} [Field K] [LinearOrder K] [IsStrictOrderedRing K]
  {assertions : List (Assertion K)} {a : Assertion K} {l : Candidate K}

theorem Leads.joins_last (leads : Leads assertions l) (identical : a.value = l.literal) :
    Joins (assertions ++ [a]) ⟨assertions.length, a⟩ l := by
  refine (leads.append.joins_iff (Literal.comparable _) (last_mem_candidatesOf _ _)).2 ?_
  exact Literal.same_iff.2 (congrArg Literal.plain identical.symm)

theorem pooled_le_append {cs : List (Candidate K)} {c : Candidate K} (scored : ∀ d ∈ cs, d.Scored)
    (unit : c.Scored) : pooled cs ≤ pooled (cs ++ [c]) := by
  rw [pooled, pooled, List.map_append]
  exact noisyOr_le_append (List.forall_mem_map.2 scored) unit

theorem groupScore_le_append (joins : Joins (assertions ++ [a]) ⟨assertions.length, a⟩ l)
    (scored : ∀ c ∈ candidatesOf (assertions ++ [a]), c.Scored) :
    groupScore assertions l ≤ groupScore (assertions ++ [a]) l := by
  rw [groupScore, groupScore, groupOf_append_of_joins joins]
  refine pooled_le_append (fun d hd => scored d ?_) (scored _ joins.mem)
  have known := (mem_groupOf.1 hd).mem
  exact (mem_candidatesOf_append (index_lt_length known)).2 known

/-- A group that is elected is elected again when one more candidate joins it. -/
theorem elected_append (joins : Joins (assertions ++ [a]) ⟨assertions.length, a⟩ l)
    (scored : ∀ c ∈ candidatesOf (assertions ++ [a]), c.Scored)
    (elected : FirstGreatest (fun d e => groupScore assertions d ≤ groupScore assertions e)
      Candidate.index (Leads assertions) l) :
    FirstGreatest (fun d e => groupScore (assertions ++ [a]) d ≤ groupScore (assertions ++ [a]) e)
      Candidate.index (Leads (assertions ++ [a])) l := by
  have grows := groupScore_le_append joins scored
  have leads {d : Candidate K} := leads_append_iff (d := d) elected.mem joins
  refine ⟨joins.leads, fun d hd => ?_, fun d hd most => ?_⟩
  · by_cases own : d = l
    · rw [own]
    · rw [groupScore_append_of_ne joins own]
      exact (elected.greatest d (leads.1 hd)).trans grows
  · by_cases own : d = l
    · rw [own]
    · -- A group that reaches the raised score reached the former one of the elected group.
      have reaches := most l joins.leads
      rw [groupScore_append_of_ne joins own] at reaches
      exact elected.first d (leads.1 hd) (fun e he =>
        (elected.greatest e he).trans (grows.trans reaches))

end Resolution

open Resolution
variable {K : Type} [Field K] [LinearOrder K] [IsStrictOrderedRing K] [NumberText K]
  {assertions : List (Assertion K)}

/-- One more assertion of what the leader of the elected group asserts has the same group elected
again, with the new assertion behind its other members. The winner then asserts what the leader
asserts, and is held with no lower confidence than before. -/
theorem one_more_vote (several : 2 ≤ assertions.length)
    (units : ∀ a ∈ assertions, ∀ s, a.confidence = some s → InUnit s) :
    ∃ r l c, resolve assertions .weightedVote = .ok r ∧ VoteDecides assertions r l c ∧
      ∀ a, (∀ s, a.confidence = some s → InUnit s) → a.value = l.literal →
        ∃ r' c', resolve (assertions ++ [a]) .weightedVote = .ok r' ∧
          VoteDecides (assertions ++ [a]) r' l c' ∧
          groupOf (assertions ++ [a]) l = groupOf assertions l ++ [⟨assertions.length, a⟩] ∧
          l.literal.same r'.winner.value = true ∧
          ∃ s s', r.winner.confidence = some s ∧ r'.winner.confidence = some s' ∧ s ≤ s' := by
  obtain ⟨r, l, c, voted, decides⟩ := exists_voteDecides several units
  refine ⟨r, l, c, voted, decides, fun a unit identical => ?_⟩
  have joins := decides.elected.mem.joins_last identical
  have units' : ∀ b ∈ assertions ++ [a], ∀ s, b.confidence = some s → InUnit s := by
    intro b hb
    rcases List.mem_append.1 hb with known | new
    · exact units b known
    · exact List.mem_singleton.1 new ▸ unit
  have scored : ∀ c ∈ candidatesOf (assertions ++ [a]), c.Scored :=
    fun c hc => scored_of_units units' hc
  have several' : 2 ≤ (assertions ++ [a]).length := by
    rw [List.length_append]
    omega
  obtain ⟨r', l', c', voted', decides'⟩ := exists_voteDecides several' units'
  have again := elected_append joins scored decides.elected
  obtain rfl : l = l' := eq_of_index_eq again.mem.mem decides'.elected.mem.mem
    (again.place_unique decides'.elected)
  refine ⟨r', c', voted', decides', groupOf_append_of_joins joins, ?_, _, _,
    by rw [decides.winner], by rw [decides'.winner], groupScore_le_append joins scored⟩
  rw [decides'.winner]
  exact (again.mem.joins_iff (Literal.comparable _) decides'.chosen.mem.mem).1 decides'.chosen.mem

def claimed (name : String) (held : ℚ) : Assertion ℚ :=
  { Assertion.ofLiteral (.text name) with confidence := some held }

def claims : List (Assertion ℚ) := [claimed "Ada" (2 / 5), claimed "Ida" (1 / 2)]

theorem one_more_vote_ida :
    ∃ r r' l c', resolve claims .weightedVote = .ok r ∧
      resolve (claims ++ [claimed "Ida" (1 / 10)]) .weightedVote = .ok r' ∧
      VoteDecides (claims ++ [claimed "Ida" (1 / 10)]) r' l c' ∧
      groupOf (claims ++ [claimed "Ida" (1 / 10)]) l =
        groupOf claims l ++ [⟨2, claimed "Ida" (1 / 10)⟩] ∧
      ∃ s s', r.winner.confidence = some s ∧ r'.winner.confidence = some s' ∧ s ≤ s' := by
  obtain ⟨r, l, c, voted, decides, more⟩ :=
    one_more_vote (show 2 ≤ claims.length by decide) (by decide +kernel)
  have second : (resolve claims .weightedVote).toOption.any (fun r => r.winnerIndex == 1) =
      true := by decide +kernel
  rw [voted] at second
  have index : c.index = 1 := decides.index.symm.trans (beq_iff_eq.1 second)
  have chosen := mem_candidatesOf.1 decides.chosen.mem.mem
  rw [index] at chosen
  have ida : c.literal = .text "Ida" := congrArg Assertion.value (Option.some.inj chosen).symm
  have value : l.literal = .text "Ida" := by
    rcases decides.chosen.mem.agrees with rfl | same
    · exact ida
    · rw [ida] at same
      cases leads : l.literal with
      | boolean b | number n => rw [leads] at same; cases same
      | text s =>
        rw [leads] at same
        exact congrArg Literal.text (beq_iff_eq.1 same)
  have unit (s : ℚ) (hs : (claimed "Ida" (1 / 10)).confidence = some s) : InUnit s := by
    cases hs
    decide +kernel
  obtain ⟨r', c', voted', decides', joined, -, grown⟩ :=
    more (claimed "Ida" (1 / 10)) unit value.symm
  exact ⟨r, r', l, c', voted, voted', decides', joined, grown⟩

end Credence
