import Mathlib.Data.List.Induction
import Credence.Proofs.Assertion
import Credence.Proofs.Score.Combination
import Credence.Resolution

/-! # Whom a contest elects

A contest is decided exactly where there is a candidate and all confidences are scores. Its winner
stands among the candidates at the position that is given for it. Only the confidence it is held
with can be another one than it stated itself.
-/

namespace Credence
variable {R : Type}

namespace Resolution

theorem mem_candidatesOf {assertions : List (Assertion R)} {c : Candidate R} :
    c ∈ candidatesOf assertions ↔ assertions[c.index]? = some c.assertion := by
  unfold candidatesOf
  rw [List.mem_map]
  constructor
  · rintro ⟨⟨a, i⟩, h, rfl⟩
    exact List.mem_zipIdx_iff_getElem?.1 h
  · intro h
    exact ⟨(c.assertion, c.index), List.mem_zipIdx_iff_getElem?.2 h, rfl⟩

theorem length_candidatesOf (assertions : List (Assertion R)) :
    (candidatesOf assertions).length = assertions.length := by
  simp [candidatesOf]

theorem pairwise_candidatesOf (assertions : List (Assertion R)) :
    (candidatesOf assertions).Pairwise (fun c d => c.index < d.index) := by
  rw [List.pairwise_iff_getElem]
  intro i j _ _ before
  simpa [candidatesOf] using before

variable [Scalar R]

theorem mem_addToGroups {c : Candidate R} {gs : List (Group R)} {g : Group R}
    (h : g ∈ addToGroups c gs) {x : Candidate R} (hx : x ∈ g.members) :
    x = c ∨ ∃ g' ∈ gs, x ∈ g'.members := by
  induction gs with
  | nil =>
    obtain rfl : g = ⟨c, []⟩ := by simpa [addToGroups] using h
    exact .inl (by simpa [Group.members] using hx)
  | cons g' rest ih =>
    unfold addToGroups at h
    split at h
    · rcases List.mem_cons.1 h with rfl | behind
      · simp only [Group.members, List.mem_cons, List.mem_append, List.not_mem_nil,
          or_false] at hx
        rcases hx with rfl | hx | rfl
        · exact .inr ⟨g', List.mem_cons_self, List.mem_cons_self⟩
        · exact .inr ⟨g', List.mem_cons_self, List.mem_cons_of_mem _ hx⟩
        · exact .inl rfl
      · exact .inr ⟨g, List.mem_cons_of_mem _ behind, hx⟩
    · rcases List.mem_cons.1 h with rfl | behind
      · exact .inr ⟨g, List.mem_cons_self, hx⟩
      · rcases ih behind with rfl | ⟨g'', hg, hx⟩
        · exact .inl rfl
        · exact .inr ⟨g'', List.mem_cons_of_mem _ hg, hx⟩

theorem mem_foldl_addToGroups {cs : List (Candidate R)} {gs : List (Group R)} {g : Group R}
    (h : g ∈ cs.foldl (fun acc c => addToGroups c acc) gs) {x : Candidate R}
    (hx : x ∈ g.members) : x ∈ cs ∨ ∃ g' ∈ gs, x ∈ g'.members := by
  induction cs generalizing gs with
  | nil => exact .inr ⟨g, h, hx⟩
  | cons c rest ih =>
    rcases ih h with behind | ⟨g', hg, hx'⟩
    · exact .inl (List.mem_cons_of_mem _ behind)
    · rcases mem_addToGroups hg hx' with rfl | earlier
      · exact .inl List.mem_cons_self
      · exact .inr earlier

theorem mem_of_mem_groups {cs : List (Candidate R)} {g : Group R} (h : g ∈ groups cs)
    {x : Candidate R} (hx : x ∈ g.members) : x ∈ cs := by
  rcases mem_foldl_addToGroups h hx with hx | ⟨g', hg, -⟩
  · exact hx
  · cases hg

theorem groups_ne_nil (first : Candidate R) (rest : List (Candidate R)) :
    groups (first :: rest) ≠ [] := by
  have kept (c : Candidate R) {gs : List (Group R)} : addToGroups c gs ≠ [] := by
    cases gs with
    | nil => exact List.cons_ne_nil _ _
    | cons g gs =>
      unfold addToGroups
      split <;> exact List.cons_ne_nil _ _
  induction rest using List.reverseRecOn with
  | nil => exact kept first
  | append_singleton rest c _ =>
    have step : groups (first :: (rest ++ [c])) = addToGroups c (groups (first :: rest)) := by
      simp [groups]
    rw [step]
    exact kept c

/-- A ballot is a group with the combination of the confidences of its members. -/
theorem exists_of_ballot {g : Group R} {b : Ballot R} (h : ballot g = .ok b) :
    ∃ result, combine (g.members.map (fun c => c.assertion.confidenceOrDefault)) .noisyOr =
      .ok result ∧ b = ⟨g, result.score⟩ := by
  rcases bind_eq_ok_iff.1 h with ⟨result, combined, hb⟩
  exact ⟨result, combined, (Except.ok.inj hb).symm⟩

/-- Holds the assertion of a candidate, with this confidence or another. -/
def Elects (assertions : List (Assertion R)) (r : Resolution R) : Prop :=
  ∃ a, assertions[r.winnerIndex]? = some a ∧
    (r.winner = a ∨ ∃ c, r.winner = { a with confidence := some c })

variable [NumberText R]

/-- A vote elects a member of one of the groups, held with what the members of its group make
together. -/
theorem exists_of_vote {assertions : List (Assertion R)} {first : Candidate R}
    {rest : List (Candidate R)} {r : Resolution R} (h : vote assertions first rest = .ok r) :
    ∃ g ∈ groups (first :: rest), ∃ c ∈ g.members, ∃ result,
      combine (g.members.map (fun d => d.assertion.confidenceOrDefault)) .noisyOr = .ok result ∧
        r.winnerIndex = c.index ∧
        r.winner = { c.assertion with confidence := some result.score } := by
  rcases bind_eq_ok_iff.1 h with ⟨ballots, hb, h⟩
  cases ballots with
  | nil => cases h
  | cons b bs =>
    rcases bind_eq_ok_iff.1 h with ⟨winner, hw, h⟩
    cases h
    have counted : leader (fun next best => decide (best.score < next.score)) b bs ∈ b :: bs :=
      leader_mem _ _ _
    obtain ⟨g, hg, hballot⟩ := exists_mem_of_forall₂ (mapM_eq_ok_iff.1 hb).flip counted
    obtain ⟨result, combined, elected⟩ := exists_of_ballot hballot
    rw [elected] at hw ⊢
    rcases bind_eq_ok_iff.1 (validated_eq_ok_iff.1 hw) with ⟨-, -, hw⟩
    exact ⟨g, hg, leader surer g.first g.rest, leader_mem _ _ _, result, combined, rfl,
      (Except.ok.inj hw).symm⟩

theorem vote_elects {assertions : List (Assertion R)} {first : Candidate R}
    {rest : List (Candidate R)} (hc : ∀ c ∈ first :: rest, c ∈ candidatesOf assertions)
    {r : Resolution R} (h : vote assertions first rest = .ok r) : r.Elects assertions := by
  rcases exists_of_vote h with ⟨g, hg, c, hmem, result, -, place, winner⟩
  have found := mem_candidatesOf.1 (hc c (mem_of_mem_groups hg hmem))
  exact ⟨c.assertion, place ▸ found, .inr ⟨result.score, winner⟩⟩

theorem decideContest_elects {assertions : List (Assertion R)} {first : Candidate R}
    {rest : List (Candidate R)} (hc : ∀ c ∈ first :: rest, c ∈ candidatesOf assertions)
    {s : Strategy} {r : Resolution R} (h : decideContest assertions first rest s = .ok r) :
    r.Elects assertions := by
  cases s with
  | highest =>
    cases h
    exact ⟨_, mem_candidatesOf.1 (hc _ (leader_mem surer first rest)), .inl rfl⟩
  | recency =>
    cases h
    exact ⟨_, mem_candidatesOf.1 (hc _ (leader_mem later first rest)), .inl rfl⟩
  | weightedVote => exact vote_elects hc h

theorem vote_validates (assertions : List (Assertion R)) (first : Candidate R)
    (rest : List (Candidate R)) : Validates (vote assertions first rest) := by
  have counted (g : Group R) : Validates (ballot g) :=
    (combine_validates _ _).bind (fun _ => .ok _)
  refine (Validates.mapM counted _).bind (fun ballots => ?_)
  cases ballots with
  | nil => exact .throw _
  | cons b bs => exact (Validates.validated _).bind (fun _ => .ok _)

theorem candidates_of_vote {assertions : List (Assertion R)} {first : Candidate R}
    {rest : List (Candidate R)} {r : Resolution R} (h : vote assertions first rest = .ok r) :
    r.candidates = assertions := by
  obtain ⟨ballots, -, h⟩ := bind_eq_ok_iff.1 h
  cases ballots with
  | nil => cases h
  | cons b bs =>
    obtain ⟨winner, -, h⟩ := bind_eq_ok_iff.1 h
    cases h
    rfl

theorem exists_vote (scores : ScoresCombine R) {assertions : List (Assertion R)}
    {first : Candidate R} {rest : List (Candidate R)}
    (units : ∀ c ∈ first :: rest, Scalar.InUnit c.assertion.confidenceOrDefault) :
    ∃ r, vote assertions first rest = .ok r := by
  have counted (g : Group R) (hg : g ∈ groups (first :: rest)) : ∃ b, ballot g = .ok b := by
    have some : g.members.map (fun c => c.assertion.confidenceOrDefault) ≠ [] := by
      simp [Group.members]
    have held : ∀ s ∈ g.members.map (fun c => c.assertion.confidenceOrDefault),
        Scalar.InUnit s := by
      intro s hs
      rcases List.mem_map.1 hs with ⟨c, hc, rfl⟩
      exact units c (mem_of_mem_groups hg hc)
    rcases scores.exists_combine .noisyOr some held with ⟨result, combined, -⟩
    exact ⟨⟨g, result.score⟩, bind_eq_ok_iff.2 ⟨result, combined, rfl⟩⟩
  rcases exists_forall₂ counted with ⟨ballots, hb⟩
  cases ballots with
  | nil => exact absurd (List.forall₂_nil_right_iff.1 hb) (groups_ne_nil first rest)
  | cons b bs =>
    let elected := leader (fun next best => decide (best.score < next.score)) b bs
    let chosen := leader surer elected.group.first elected.group.rest
    have unit : Scalar.InUnit elected.score := by
      obtain ⟨g, -, hballot⟩ := exists_mem_of_forall₂ hb.flip
        (show elected ∈ b :: bs from leader_mem _ _ _)
      rcases exists_of_ballot hballot with ⟨result, combined, made⟩
      rw [made]
      exact scores.combined _ _ _ combined
    have held := validated_eq_ok_iff.2 (chosen.assertion.withConfidence_eq_ok unit)
    exact ⟨_, bind_eq_ok_iff.2 ⟨b :: bs, mapM_eq_ok_iff.2 hb, bind_eq_ok_iff.2 ⟨_, held, rfl⟩⟩⟩

end Resolution

variable [Scalar R]

/-- A decided contest has a single candidate, who wins, or is decided between several. -/
theorem resolve_cases [NumberText R] {assertions : List (Assertion R)} {s : Strategy}
    {r : Resolution R} (h : resolve assertions s = .ok r) :
    ∃ first rest, Resolution.candidatesOf assertions = first :: rest ∧
      (rest = [] ∧ r = ⟨first.assertion, first.index, assertions, s, "Single candidate"⟩ ∨
        rest ≠ [] ∧ Resolution.decideContest assertions first rest s = .ok r) := by
  obtain ⟨-, -, h⟩ := bind_eq_ok_iff.1 h
  split at h
  · cases h
  · next single hs => exact ⟨single, [], hs, .inl ⟨rfl, (Except.ok.inj h).symm⟩⟩
  · next first rest several hs => exact ⟨first, rest, hs, .inr ⟨several, h⟩⟩

theorem decided_of_several [NumberText R] {assertions : List (Assertion R)}
    (several : 2 ≤ assertions.length) {s : Strategy} {r : Resolution R}
    (h : resolve assertions s = .ok r) :
    ∃ first rest, Resolution.candidatesOf assertions = first :: rest ∧
      Resolution.decideContest assertions first rest s = .ok r := by
  obtain ⟨first, rest, hs, ⟨rfl, -⟩ | ⟨-, decided⟩⟩ := resolve_cases h
  · have count := congrArg List.length hs
    rw [Resolution.length_candidatesOf, List.length_singleton] at count
    omega
  · exact ⟨first, rest, hs, decided⟩

theorem resolve_validates [NumberText R] (assertions : List (Assertion R)) (s : Strategy) :
    Validates (resolve assertions s) := by
  refine (Validates.validated _).bind (fun _ => ?_)
  split
  · exact .throw _
  · exact .ok _
  · cases s with
    | highest => exact .ok _
    | recency => exact .ok _
    | weightedVote => exact Resolution.vote_validates _ _ _

theorem inUnit_of_resolve [NumberText R] {assertions : List (Assertion R)} {s : Strategy}
    {r : Resolution R} (h : resolve assertions s = .ok r) {a : Assertion R}
    (ha : a ∈ assertions) {c : R} (hc : a.confidence = some c) : Scalar.InUnit c := by
  rcases bind_eq_ok_iff.1 h with ⟨u, checked, -⟩
  have checked := forM_eq_ok_iff.1 (validated_eq_ok_iff.1 checked) a ha
  exact Assertion.validate_eq_ok_iff.1 checked c hc

theorem inUnit_of_winner [NumberText R] (scores : ScoresCombine R) {assertions : List (Assertion R)}
    {s : Strategy} {r : Resolution R} (h : resolve assertions s = .ok r) {c : R}
    (hc : r.winner.confidence = some c) : Scalar.InUnit c := by
  have candidate {d : Resolution.Candidate R} (hd : d ∈ Resolution.candidatesOf assertions)
      (held : d.assertion.confidence = some c) : Scalar.InUnit c :=
    inUnit_of_resolve h (List.mem_of_getElem? (Resolution.mem_candidatesOf.1 hd)) held
  obtain ⟨first, rest, hs, ⟨-, rfl⟩ | ⟨-, decided⟩⟩ := resolve_cases h
  · exact candidate (hs ▸ List.mem_cons_self) hc
  · cases s with
    | highest =>
      cases decided
      exact candidate (hs ▸ leader_mem Resolution.surer first rest) hc
    | recency =>
      cases decided
      exact candidate (hs ▸ leader_mem Resolution.later first rest) hc
    | weightedVote =>
      rcases Resolution.exists_of_vote decided with ⟨g, -, d, -, result, combined, -, winner⟩
      rw [winner] at hc
      exact Option.some.inj hc ▸ scores.combined _ _ _ combined

/-- A contest with a candidate is decided where all confidences are scores. -/
theorem exists_resolve [NumberText R] (scores : ScoresCombine R) {assertions : List (Assertion R)}
    (s : Strategy) (present : assertions ≠ [])
    (units : ∀ a ∈ assertions, ∀ c, a.confidence = some c → Scalar.InUnit c) :
    ∃ r, resolve assertions s = .ok r := by
  have checked : validated (assertions.forM Assertion.validate) = .ok () :=
    validated_eq_ok_iff.2 (forM_eq_ok_iff.2
      (fun a ha => Assertion.validate_eq_ok_iff.2 (units a ha)))
  unfold resolve
  rw [checked]
  cases hs : Resolution.candidatesOf assertions with
  | nil =>
    rw [Resolution.candidatesOf, List.map_eq_nil_iff, List.zipIdx_eq_nil_iff] at hs
    exact absurd hs present
  | cons first rest =>
    have held : ∀ c ∈ first :: rest, Scalar.InUnit c.assertion.confidenceOrDefault := by
      intro c hc
      have found := List.mem_of_getElem? (Resolution.mem_candidatesOf.1 (hs ▸ hc))
      exact Assertion.confidenceOrDefault_inUnit scores.half (units _ found)
    cases rest with
    | nil => exact ⟨_, rfl⟩
    | cons second rest =>
      cases s with
      | highest => exact ⟨_, rfl⟩
      | recency => exact ⟨_, rfl⟩
      | weightedVote => exact Resolution.exists_vote scores held

/-- The winner is the candidate at its position, but for the confidence it is held with. -/
theorem resolve_elects [NumberText R] {assertions : List (Assertion R)} {s : Strategy}
    {r : Resolution R} (h : resolve assertions s = .ok r) : r.Elects assertions := by
  obtain ⟨first, rest, hs, ⟨-, rfl⟩ | ⟨-, decided⟩⟩ := resolve_cases h
  · exact ⟨first.assertion, Resolution.mem_candidatesOf.1 (hs ▸ List.mem_cons_self), .inl rfl⟩
  · exact Resolution.decideContest_elects (fun c hc => hs ▸ hc) decided

theorem candidates_of_resolve [NumberText R] {assertions : List (Assertion R)} {s : Strategy}
    {r : Resolution R} (h : resolve assertions s = .ok r) : r.candidates = assertions := by
  obtain ⟨first, rest, -, ⟨-, rfl⟩ | ⟨-, decided⟩⟩ := resolve_cases h
  · rfl
  · cases s with
    | highest =>
      cases decided
      rfl
    | recency =>
      cases decided
      rfl
    | weightedVote => exact Resolution.candidates_of_vote decided

end Credence
