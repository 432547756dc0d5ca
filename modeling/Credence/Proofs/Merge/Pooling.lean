import Credence.Proofs.Contest.Pooling
import Credence.Proofs.Graph.Bare
import Credence.Proofs.Merge.Account
import Credence.Proofs.Merge.Provenance
import Credence.Proofs.Scalar.Tenths
import Credence.Scalar.Binary64

/-! # Confidence pooled by a vote

A literal that wins a vote is held with the combination of all values that say the same, provided
that no text among them is that of a node or a list that competes with it. A node that wins is
written as its source gives it, so what the vote combined for it is lost.
-/

namespace Credence

namespace Merge
open PropertyValue
variable {R : Type} [Scalar R]

/-- Held with the combination of the confidences of all values that say the same. -/
def Pooled (values : List (PropertyValue R)) (w : PropertyValue R) : Prop :=
  ∃ result, combine ((values.filter (fun u => u.agrees w)).map
      (fun u => u.confidence.getD Assertion.defaultConfidence)) .noisyOr = .ok result ∧
    w.confidence = some result.score

theorem same_text_eq_false {l : Literal R} {t : String} (other : l ≠ .text t) :
    l.same (.text t) = false := by
  cases l with
  | boolean b | number n => rfl
  | text s => exact beq_false_of_ne (fun same => other (congrArg Literal.text same))

variable [NumberText R]

/-- Some values that compete for one literal exactly where they say the same, unless they are nodes
or lists: their literals are told apart as by an equivalence, and none of them is the text of a node
or of a list among them. -/
structure ToldApart (values : List (PropertyValue R)) : Prop where
  comparable : Literal.Comparable ((values.map candidate).map Assertion.value)
  no_text : ∀ u ∈ values, (∀ l, u.bare ≠ .value l) → ∀ v ∈ values,
    v.bare ≠ .value (.text u.text)

theorem confidenceOrDefault_candidate (v : PropertyValue R) :
    v.candidate.confidenceOrDefault = v.confidence.getD Assertion.defaultConfidence := by
  cases v with
  | literal l | annotated a | node n | list items => rfl

/-- A value says the same as one that stands for its own literal where it competes for that. -/
theorem agrees_eq_same_candidate {values : List (PropertyValue R)} (apart : ToldApart values)
    {u v : PropertyValue R} (hu : u ∈ values) (hv : v ∈ values)
    (own : v.bare = .value v.candidate.value) :
    u.agrees v = v.candidate.value.same u.candidate.value := by
  have symmetric := apart.comparable.same_comm
    (List.mem_map_of_mem (List.mem_map_of_mem hv)) (List.mem_map_of_mem (List.mem_map_of_mem hu))
  unfold agrees
  rw [own]
  cases u with
  | literal l | annotated a => exact symmetric.symm
  | node n =>
    rcases n with ⟨id, types, confidence, properties⟩
    have other := apart.no_text _ hu (fun l => by simp [bare, Node.bare]) v hv
    rw [own, ne_eq, Bare.value.injEq] at other
    simp only [bare, Node.bare, Bare.same]
    exact (same_text_eq_false other).symm
  | list items =>
    have other := apart.no_text _ hu (fun l => by simp [bare]) v hv
    rw [own, ne_eq, Bare.value.injEq] at other
    simp only [bare, Bare.same]
    exact (same_text_eq_false other).symm

/-- The values that compete for a literal make together what those make that say it. -/
theorem pooled_of_own {values : List (PropertyValue R)} (apart : ToldApart values)
    {v : PropertyValue R} (hv : v ∈ values) (own : v.bare = .value v.candidate.value)
    {result : CombinationResult R}
    (combined : combine (((values.map candidate).filter
        (fun b => v.candidate.value.same b.value)).map Assertion.confidenceOrDefault) .noisyOr =
      .ok result) :
    Pooled values (.annotated { v.candidate with confidence := some result.score }) := by
  refine ⟨result, ?_, rfl⟩
  have alike : values.filter
        (fun u => u.agrees (.annotated { v.candidate with confidence := some result.score })) =
      values.filter (fun u => v.candidate.value.same u.candidate.value) := by
    refine List.filter_congr (fun u hu => ?_)
    rw [← agrees_eq_same_candidate apart hu hv own]
    unfold agrees
    rw [own]
    rfl
  rw [alike, ← combined, List.filter_map, List.map_map]
  congr 2
  funext u
  exact (confidenceOrDefault_candidate u).symm

/-- A vote writes a literal with what all values make together that say the same, and a node as a
source gives it. -/
theorem settle_vote_pools {id p : String} {values : List (PropertyValue R)} {c : Conflict R}
    (several : 2 ≤ values.length) (apart : ToldApart values)
    (h : settle id p values (.contest .weightedVote) = .ok c) :
    (∀ a, c.winner = .annotated a → Pooled values c.winner) ∧
      (∀ k, c.winner = .node k → .node k ∈ values) := by
  rcases exists_of_settle_contest h with ⟨r, v, hr, hv, winner⟩
  rcases resolve_pools (by simpa using several) apart.comparable hr with
    ⟨a, result, found, combined, held⟩
  rw [List.getElem?_map, hv] at found
  cases found
  have given := List.mem_of_getElem? hv
  rw [winner, held]
  constructor
  · intro b literal
    cases v with
    | literal l | annotated a => exact pooled_of_own apart given rfl combined
    | node n | list items => cases literal
  · intro k node
    cases v with
    | literal l | annotated a | list items => cases node
    | node n =>
      cases node
      exact given

/-- A literal that a vote writes is held with what all values make together that say the same. A
node that it writes is in all its parts one that a source gives. -/
theorem vote_pools_literals {graphs : List (Graph R)} {options : MergeOptions} {m : Graph R}
    {report : MergeReport R} (h : Graph.merge graphs options = .ok (m, report))
    (vote : options.strategy = .contest .weightedVote) {id p : String}
    {values : List (PropertyValue R)}
    (given : valuesOf (membersOf (graphs.flatMap Graph.nodes) id) p = values)
    (contested : Contested values) (apart : ToldApart values) :
    ∃ n w, m.node? id = some n ∧ n.get? p = some w ∧
      (∀ a, w = .annotated a → Pooled values w) ∧ (∀ k, w = .node k → .node k ∈ values) := by
  subst given
  rcases exists_assembled h with ⟨merged, assembled⟩
  rcases assembled.exists_conflict contested with ⟨c, hc, rfl, rfl, settled⟩
  rcases assembled.record_of_mem_conflicts hc with ⟨-, -, n, hn, hw⟩
  rw [vote] at settled
  exact ⟨n, c.winner, hn, hw, settle_vote_pools contested.two_le_length apart settled⟩

def sourcesOf {R : Type} (values : List (PropertyValue R)) : List (Graph R) :=
  values.map (fun v => .single ⟨some "x", [], none, [("p", v)]⟩)

def adaNamed (confidence : ℚ) : PropertyValue ℚ :=
  .annotated ⟨.text "Ada", some confidence, none, none, none, []⟩

def adaNode : PropertyValue ℚ :=
  .node { (Node.ofId "ex:ada" : Node ℚ) with confidence := some (4 / 5) }

def adaValues : List (PropertyValue ℚ) := [adaNamed (9 / 10), adaNode, adaNamed (7 / 10)]

theorem toldApart_adaValues : ToldApart adaValues := by
  refine ⟨Literal.comparable _, ?_⟩
  intro u hu other v hv stands
  rw [adaValues, List.mem_cons, List.mem_pair] at hu hv
  rcases hu with rfl | rfl | rfl
  · exact other (.text "Ada") rfl
  · have unwritten : "Ada" ≠ adaNode.text := by decide +kernel
    rcases hv with rfl | rfl | rfl
    · exact unwritten (by simpa [adaNamed, bare] using stands)
    · simp [adaNode, bare, Node.bare, Node.ofId, Node.anonymous] at stands
    · exact unwritten (by simpa [adaNamed, bare] using stands)
  · exact other (.text "Ada") rfl

theorem vote_pools_literals_ada :
    ∃ m report n w, Graph.merge (sourcesOf adaValues) ⟨.contest .weightedVote, .max⟩ =
        .ok (m, report) ∧
      m.node? "x" = some n ∧ n.get? "p" = some w ∧ (∃ a, w = .annotated a) ∧
      Pooled adaValues w := by
  obtain ⟨⟨m, report⟩, run⟩ := exists_eq_ok_of_isOk
    (show (Graph.merge (sourcesOf adaValues) ⟨.contest .weightedVote, .max⟩).isOk = true by
      decide +kernel)
  have given : valuesOf (membersOf ((sourcesOf adaValues).flatMap Graph.nodes) "x") "p" =
      adaValues := rfl
  have contested : Contested adaValues := contested_cons_iff.2 (by decide +kernel)
  obtain ⟨n, w, hn, hw, pooled, -⟩ :=
    vote_pools_literals run rfl given contested toldApart_adaValues
  have written : ((Graph.merge (sourcesOf adaValues) ⟨.contest .weightedVote, .max⟩).toOption.bind
      (fun r => (r.1.node? "x").bind (fun n => n.get? "p"))).map kind =
        some "annotated value" := by decide +kernel
  rw [run] at written
  have kept : ((m.node? "x").bind (fun n => n.get? "p")).map kind = some "annotated value" :=
    written
  rw [hn, Option.bind_some, hw, Option.map_some, Option.some.injEq] at kept
  cases w with
  | annotated a => exact ⟨m, report, n, _, run, hn, hw, ⟨a, rfl⟩, pooled a rfl⟩
  | literal l | node k | list items => simp [kind] at kept

def lab : PropertyValue Float :=
  .node { (Node.ofId "lab" : Node Float) with confidence := some 0.5 }

def labValues : List (PropertyValue Float) := [lab, lab, .ofText "Lab"]

/-- One node that two sources give with the same confidence wins over a name. The vote makes three
quarters of it, and the half that each source states is written. -/
theorem vote_node_not_pooled :
    ∃ m report n, Graph.merge (sourcesOf labValues) ⟨.contest .weightedVote, .noisyOr⟩ =
        .ok (m, report) ∧
      valuesOf (membersOf ((sourcesOf labValues).flatMap Graph.nodes) "x") "p" = labValues ∧
      Contested labValues ∧ m.node? "x" = some n ∧ n.get? "p" = some lab ∧
      ¬ Pooled labValues lab := by
  obtain ⟨⟨m, report⟩, run⟩ := exists_eq_ok_of_isOk
    (show (Graph.merge (sourcesOf labValues) ⟨.contest .weightedVote, .noisyOr⟩).isOk = true by
      decide +kernel)
  have given : valuesOf (membersOf ((sourcesOf labValues).flatMap Graph.nodes) "x") "p" =
      labValues := rfl
  have contested : Contested labValues := contested_cons_iff.2 (by decide +kernel)
  rcases exists_assembled run with ⟨merged, assembled⟩
  rcases assembled.exists_conflict (given ▸ contested) with
    ⟨c, hc, same_node, same_property, settled⟩
  rcases assembled.record_of_mem_conflicts hc with ⟨-, -, n, hn, hw⟩
  rcases exists_of_settle_contest (given ▸ settled) with ⟨r, v, hr, hv, winner⟩
  have place : ((resolve (labValues.map candidate) .weightedVote).map
      Resolution.winnerIndex).toOption = some 0 := by decide +kernel
  rw [hr] at place
  have first : r.winnerIndex = 0 := Option.some.inj place
  rw [first] at hv
  cases hv
  rw [same_node] at hn
  rw [same_property, winner] at hw
  refine ⟨m, report, n, run, given, contested, hn, hw, ?_⟩
  rintro ⟨result, combined, held⟩
  have other : ((combine ((labValues.filter (fun u => u.agrees lab)).map
      (fun u => u.confidence.getD Assertion.defaultConfidence)) .noisyOr).toOption.any
        (fun pool => pool.score == 0.5)) = false := by decide +kernel
  rw [combined] at other
  have half : (0.5 : Float) = result.score := Option.some.inj held
  have kept : (result.score == 0.5) = false := other
  rw [← half] at kept
  exact absurd kept (by decide +kernel)

end Merge
end Credence
