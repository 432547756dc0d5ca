import Credence.Proofs.Contest.Groups
import Credence.Proofs.Graph.Bare

/-! # What a vote pools

Where literals are told apart as by an equivalence, a group of a vote has as members all candidates
that assert what its first member asserts. So the winner of a vote is held with the combination of
all candidates that assert its literal. Exact literals are told apart in this way.
-/

namespace Credence

section
variable {R : Type} [Scalar R]

/-- Some literals that `same` tells apart as an equivalence does. -/
structure Literal.Comparable (ls : List (Literal R)) : Prop where
  refl : ∀ a ∈ ls, a.same a = true
  symm : ∀ a ∈ ls, ∀ b ∈ ls, a.same b = true → b.same a = true
  trans : ∀ a ∈ ls, ∀ b ∈ ls, ∀ c ∈ ls, a.same b = true → b.same c = true → a.same c = true

theorem Literal.Comparable.same_comm {ls : List (Literal R)} (h : Comparable ls)
    {a b : Literal R} (ha : a ∈ ls) (hb : b ∈ ls) : a.same b = b.same a := by
  rw [Bool.eq_iff_iff]
  exact ⟨h.symm a ha b hb, h.symm b hb a ha⟩

theorem Literal.Comparable.same_congr {ls : List (Literal R)} (h : Comparable ls)
    {a b c : Literal R} (ha : a ∈ ls) (hb : b ∈ ls) (hc : c ∈ ls) (same : a.same b = true) :
    a.same c = b.same c := by
  rw [Bool.eq_iff_iff]
  constructor
  · exact h.trans b hb a ha c hc (h.symm a ha b hb same)
  · exact h.trans a ha b hb c hc same

end

theorem Literal.comparable {K : Type} [Field K] [LinearOrder K] [IsStrictOrderedRing K]
    (ls : List (Literal K)) : Comparable ls where
  refl _ _ := Literal.same_iff.2 rfl
  symm _ _ _ _ same := Literal.same_iff.2 (Literal.same_iff.1 same).symm
  trans _ _ _ _ _ _ same same' :=
    Literal.same_iff.2 ((Literal.same_iff.1 same).trans (Literal.same_iff.1 same'))

variable {R : Type}

namespace Resolution

def literals (cs : List (Candidate R)) : List (Literal R) := cs.map Candidate.literal

theorem literal_mem_literals {cs : List (Candidate R)} {c : Candidate R} (h : c ∈ cs) :
    c.literal ∈ literals cs :=
  List.mem_map_of_mem h

theorem map_assertion_candidatesOf (assertions : List (Assertion R)) :
    (candidatesOf assertions).map Candidate.assertion = assertions := by
  unfold candidatesOf
  rw [List.map_map]
  exact List.zipIdx_map_fst 0 assertions

theorem literals_candidatesOf (assertions : List (Assertion R)) :
    literals (candidatesOf assertions) = assertions.map Assertion.value := by
  conv_rhs => rw [← map_assertion_candidatesOf assertions, List.map_map]
  rfl

variable [Scalar R] {assertions : List (Assertion R)} {c l : Candidate R}

/-- Where literals are told apart as by an equivalence, every candidate that asserts what a leader
asserts belongs to this leader. -/
theorem Leads.joins_iff (leads : Leads assertions l)
    (comparable : Literal.Comparable (literals (candidatesOf assertions)))
    (hc : c ∈ candidatesOf assertions) :
    Joins assertions c l ↔ l.literal.same c.literal = true := by
  have agrees_iff {d : Candidate R} (hd : d ∈ candidatesOf assertions) :
      d.Agrees c ↔ d.literal.same c.literal = true := by
    refine ⟨?_, .inr⟩
    rintro (rfl | same)
    · exact comparable.refl _ (literal_mem_literals hd)
    · exact same
  refine ⟨fun joins => (agrees_iff leads.mem).1 joins.agrees, fun same => ?_⟩
  refine ⟨hc, leads, .inr same, fun d hd agrees => Nat.le_of_not_lt (fun before => ?_)⟩
  -- A leader before it that asserts the same would have taken it.
  have back : c.literal.same l.literal = true :=
    comparable.symm _ (literal_mem_literals leads.mem) _ (literal_mem_literals hc) same
  have taken : d.literal.same l.literal = true :=
    comparable.trans _ (literal_mem_literals hd.mem) _ (literal_mem_literals hc) _
      (literal_mem_literals leads.mem) ((agrees_iff hd.mem).1 agrees) back
  exact leads.not_agrees before hd (.inr taken)

/-- What holds of the groups into which candidates have been put. -/
structure Grouped (cs : List (Candidate R)) (gs : List (Group R)) : Prop where
  members_eq : ∀ g ∈ gs, g.members = cs.filter g.takes
  apart : gs.Pairwise (fun g h => g.takes h.first = false)
  covered : ∀ c ∈ cs, ∃ g ∈ gs, g.takes c = true

theorem Grouped.first_mem {cs : List (Candidate R)} {gs : List (Group R)} (h : Grouped cs gs)
    {g : Group R} (hg : g ∈ gs) : g.first ∈ cs := by
  have member : g.first ∈ g.members := List.mem_cons_self
  rw [h.members_eq g hg] at member
  exact (List.mem_filter.1 member).1

theorem groups_grouped
    (comparable : Literal.Comparable (literals (candidatesOf assertions))) :
    Grouped (candidatesOf assertions) (groups (candidatesOf assertions)) := by
  have led := led_groups assertions
  constructor
  case members_eq =>
    intro g hg
    rw [led.members_eq g hg]
    exact groupOf_eq_filter (fun c hc => (led.leads hg).joins_iff comparable hc)
  case apart =>
    have ordered := List.pairwise_map.1 led.ordered
    refine ordered.imp_of_mem (fun {g h} hg hh before => Bool.eq_false_iff.2 (fun taken => ?_))
    exact (led.leads hh).not_agrees before (led.leads hg) (.inr taken)
  case covered =>
    intro c hc
    obtain ⟨l, joins⟩ := exists_joins hc
    obtain ⟨g, hg, rfl⟩ := List.mem_map.1 ((led.leads_iff_mem l).1 joins.leads)
    exact ⟨g, hg, (joins.leads.joins_iff comparable hc).1 joins⟩

variable [NumberText R]

/-- The winner of a vote is one of the candidates, held with the combination of the confidences of
all candidates that assert its literal. -/
theorem vote_pools {assertions : List (Assertion R)} {first : Candidate R}
    {rest : List (Candidate R)} (hc : candidatesOf assertions = first :: rest)
    (comparable : Literal.Comparable (assertions.map Assertion.value))
    {r : Resolution R} (h : vote assertions first rest = .ok r) :
    ∃ a result, assertions[r.winnerIndex]? = some a ∧
      combine ((assertions.filter (fun b => a.value.same b.value)).map
        Assertion.confidenceOrDefault) .noisyOr = .ok result ∧
      r.winner = { a with confidence := some result.score } := by
  rcases exists_of_vote h with ⟨g, hg, c, hmem, result, combined, place, winner⟩
  rw [← hc] at hg
  rw [← literals_candidatesOf] at comparable
  have grouped := groups_grouped comparable
  have found := mem_of_mem_groups hg hmem
  refine ⟨c.assertion, result, ?_, ?_, winner⟩
  · rw [place]
    exact mem_candidatesOf.1 found
  · rw [grouped.members_eq g hg] at combined hmem
    have joined : g.first.literal.same c.literal = true := (List.mem_filter.1 hmem).2
    have alike : (candidatesOf assertions).filter g.takes =
        (candidatesOf assertions).filter (fun d => c.literal.same d.literal) :=
      List.filter_congr (fun d hd => comparable.same_congr
        (literal_mem_literals (grouped.first_mem hg)) (literal_mem_literals found)
        (literal_mem_literals hd) joined)
    conv_lhs => rw [← map_assertion_candidatesOf assertions]
    rw [List.filter_map, List.map_map, ← combined, alike]
    rfl

end Resolution

theorem resolve_pools [Scalar R] [NumberText R] {assertions : List (Assertion R)}
    (several : 2 ≤ assertions.length)
    (comparable : Literal.Comparable (assertions.map Assertion.value))
    {r : Resolution R} (h : resolve assertions .weightedVote = .ok r) :
    ∃ a result, assertions[r.winnerIndex]? = some a ∧
      combine ((assertions.filter (fun b => a.value.same b.value)).map
        Assertion.confidenceOrDefault) .noisyOr = .ok result ∧
      r.winner = { a with confidence := some result.score } := by
  obtain ⟨first, rest, hs, voted⟩ := decided_of_several several h
  exact Resolution.vote_pools hs comparable voted

end Credence
