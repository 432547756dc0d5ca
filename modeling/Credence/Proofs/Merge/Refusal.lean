import Credence.Proofs.Graph.Confidences
import Credence.Proofs.Merge.Account
import Credence.Scalar.Binary64

/-! # What a merge refuses

A merge checks the confidences that it combines or that compete: those of the nodes with one
identifier and of values that agree, where two or more are stated, and those of the values of a
contest. It refuses exactly where one of these is not a score. What it takes over without combining
it is not checked.
-/

namespace Credence.Merge
open PropertyValue
variable {R : Type} [Scalar R]

section Validates

theorem combinedConfidence_validates (confidences : List (Option R)) (method : Combination) :
    Validates (combinedConfidence confidences method) := by
  unfold combinedConfidence
  by_cases few : (confidences.filterMap id).length < 2
  · rw [if_pos few]
    exact .ok _
  · rw [if_neg few]
    exact (combine_validates _ _).map _

variable [NumberText R]

theorem agree_validates (first : PropertyValue R) (rest : List (PropertyValue R))
    (method : Combination) : Validates (agree first rest method) := by
  refine (combinedConfidence_validates _ _).bind (fun combined => ?_)
  cases combined with
  | none => exact .ok _
  | some c => exact .validated _

theorem settle_validates (id p : String) (values : List (PropertyValue R)) (s : MergeStrategy) :
    Validates (settle id p values s) := by
  cases s with
  | contest s => exact (resolve_validates _ _).bind (fun r => .ok _)
  | union => exact .ok _

theorem reconcile_validates (options : MergeOptions) (id p : String) (first : PropertyValue R)
    (rest : List (PropertyValue R)) : Validates (reconcile options id p first rest) := by
  unfold reconcile
  split
  · exact (agree_validates _ _ _).map _
  · exact (settle_validates _ _ _ _).map _

theorem mergeNode_validates (options : MergeOptions) (id : String) (members : List (Node R)) :
    Validates (mergeNode options id members) := by
  have property (p : String) : Validates (mergeProperty options id members p) := by
    unfold mergeProperty
    split
    · exact .ok _
    · exact (reconcile_validates _ _ _ _ _).map _
  exact (combinedConfidence_validates _ _).bind
    (fun combined => (Validates.mapM property _).bind (fun outcomes => .ok _))

theorem merge_validates (graphs : List (Graph R)) (options : MergeOptions) :
    Validates (Graph.merge graphs options) := by
  have nodes := Validates.mapM (fun b : Bucket R => mergeNode_validates options b.id b.members)
    (gather (graphs.flatMap Graph.nodes)).buckets
  unfold Graph.merge
  by_cases few : graphs.length < 2
  · rw [if_pos few]
    exact (Validates.throw _).bind (fun _ => nodes.bind (fun merged => .ok _))
  · rw [if_neg few]
    exact nodes.bind (fun merged => .ok _)

end Validates

/-- A confidence that a merge checks. -/
inductive Checked (graphs : List (Graph R)) (options : MergeOptions) (c : R) : Prop
  /-- One of two or more that nodes with one identifier state. -/
  | node (id : String)
      (several : 2 ≤ ((membersOf (graphs.flatMap Graph.nodes) id).filterMap
        Node.confidence).length)
      (mem : c ∈ (membersOf (graphs.flatMap Graph.nodes) id).filterMap Node.confidence)
  /-- One of two or more that values state which agree. -/
  | agreed (id p : String) (first : PropertyValue R) (rest : List (PropertyValue R))
      (values : valuesOf (membersOf (graphs.flatMap Graph.nodes) id) p = first :: rest)
      (same : ∀ v ∈ rest, v.agrees first = true) (several : 2 ≤ (stated (first :: rest)).length)
      (mem : c ∈ stated (first :: rest))
  /-- One that a value of a contest states. -/
  | contested (id p : String) (s : Strategy) (contest : options.strategy = .contest s)
      (contested : Contested (valuesOf (membersOf (graphs.flatMap Graph.nodes) id) p))
      (mem : c ∈ stated (valuesOf (membersOf (graphs.flatMap Graph.nodes) id) p))

section
variable {R : Type} {graphs : List (Graph R)} {c : R}

theorem filterMap_id_map_node (members : List (Node R)) :
    (members.map Node.confidence).filterMap id = members.filterMap Node.confidence := by
  rw [List.filterMap_map]
  rfl

theorem mem_confidences_of_member {id : String} {n : Node R}
    (hn : n ∈ membersOf (graphs.flatMap Graph.nodes) id) (hc : c ∈ n.confidences) :
    ∃ g ∈ graphs, c ∈ g.confidences := by
  rcases List.mem_flatMap.1 (mem_membersOf.1 hn).1 with ⟨g, hg, hng⟩
  exact ⟨g, hg, List.mem_flatMap.2 ⟨n, hng, hc⟩⟩

theorem mem_confidences_of_stated {id p : String}
    (hc : c ∈ stated (valuesOf (membersOf (graphs.flatMap Graph.nodes) id) p)) :
    ∃ g ∈ graphs, c ∈ g.confidences := by
  rcases List.mem_filterMap.1 hc with ⟨v, hv, held⟩
  rcases mem_valuesOf.1 hv with ⟨n, hn, found⟩
  have field := Fields.mem_of_get?_eq_some found
  exact mem_confidences_of_member hn
    (Node.mem_confidences.2 (.inr ⟨_, field, mem_confidences_of_confidence held⟩))

end

/-- What a merge checks is in its sources. -/
theorem Checked.exists_mem {graphs : List (Graph R)} {options : MergeOptions} {c : R}
    (h : Checked graphs options c) : ∃ g ∈ graphs, c ∈ g.confidences := by
  cases h with
  | node id several mem =>
    rcases List.mem_filterMap.1 mem with ⟨n, hn, held⟩
    exact mem_confidences_of_member hn (Node.mem_confidences.2 (.inl held))
  | agreed id p first rest values same several mem =>
    rw [← values] at mem
    exact mem_confidences_of_stated mem
  | contested id p s contest contested mem => exact mem_confidences_of_stated mem

theorem exists_combinedConfidence (scores : ScoresCombine R) {confidences : List (Option R)}
    (method : Combination) (units : 2 ≤ (confidences.filterMap id).length →
      ∀ c ∈ confidences.filterMap id, Scalar.InUnit c) :
    ∃ combined, combinedConfidence confidences method = .ok combined ∧
      ∀ c, combined = some c → Scalar.InUnit c := by
  by_cases few : (confidences.filterMap id).length < 2
  · refine ⟨none, combinedConfidence_of_few method few, fun c hc => ?_⟩
    cases hc
  · have enough := Nat.not_lt.1 few
    have present : confidences.filterMap id ≠ [] := List.ne_nil_of_length_pos (by omega)
    rcases scores.exists_combine method present (units enough) with ⟨result, made, unit⟩
    refine ⟨some result.score, ?_, fun c hc => Option.some.inj hc ▸ unit⟩
    rw [combinedConfidence_of_enough method enough, made]
    rfl

variable [NumberText R]

theorem inUnit_of_settle {id p : String} {values : List (PropertyValue R)} {s : Strategy}
    {conflict : Conflict R} (h : settle id p values (.contest s) = .ok conflict) {c : R}
    (hc : c ∈ stated values) : Scalar.InUnit c := by
  rcases bind_eq_ok_iff.1 h with ⟨r, hr, -⟩
  rcases List.mem_filterMap.1 hc with ⟨v, hv, held⟩
  refine inUnit_of_resolve hr (List.mem_map_of_mem hv) ?_
  cases v with
  | literal l | list items => cases held
  | annotated a => exact held
  | node n =>
    have held : n.confidence = some c := held
    simp [candidate, held]

/-- A merge that succeeds has checked nothing but scores. -/
theorem Checked.inUnit {graphs : List (Graph R)} {options : MergeOptions} {m : Graph R}
    {report : MergeReport R} {c : R} (hc : Checked graphs options c)
    (h : Graph.merge graphs options = .ok (m, report)) : Scalar.InUnit c := by
  rcases exists_assembled h with ⟨merged, assembled⟩
  cases hc with
  | node id several mem =>
    rcases List.mem_filterMap.1 mem with ⟨n, hn, -⟩
    have present := membersOf_ne_nil_iff.1 (List.ne_nil_of_mem hn)
    rcases assembled.exists_of_id present with ⟨k, hk, rfl⟩
    rcases (assembled.merges k hk).confidence_eq with ⟨combined, made, -⟩
    rw [← filterMap_id_map_node] at several mem
    rw [combinedConfidence_of_enough _ several] at made
    rcases map_eq_ok_iff.1 made with ⟨result, made, -⟩
    exact (combine_eq_ok_iff.1 made).2.1 c mem
  | agreed id p first rest values same several mem =>
    rcases exists_becomes h values with ⟨n, o, -, -, reconciled⟩
    rcases (reconcile_eq_ok_of_agree same).1 reconciled with ⟨w, hw, -⟩
    rcases agree_eq_ok_iff.1 hw with ⟨few, -⟩ | ⟨-, result, made, -⟩
    · exact absurd several (Nat.not_le.2 few)
    · exact (combine_eq_ok_iff.1 made).2.1 c mem
  | contested id p s contest contested mem =>
    rcases assembled.exists_conflict contested with ⟨conflict, -, -, -, settled⟩
    rw [contest] at settled
    exact inUnit_of_settle settled mem

/-- What a value competes with is what it states, or one half. -/
theorem confidence_of_candidate {v : PropertyValue R} {c : R}
    (h : v.candidate.confidence = some c) :
    v.confidence = some c ∨ c = Assertion.defaultConfidence := by
  cases v with
  | literal l | list items =>
    cases h
    exact .inr rfl
  | annotated a => exact .inl h
  | node n =>
    have held : n.confidence.getD Assertion.defaultConfidence = c := Option.some.inj h
    cases hn : n.confidence with
    | none =>
      rw [hn] at held
      exact .inr held.symm
    | some c' =>
      rw [hn] at held
      exact .inl (held ▸ hn)

theorem exists_agree (scores : ScoresCombine R) {first : PropertyValue R}
    {rest : List (PropertyValue R)} (method : Combination)
    (units : 2 ≤ (stated (first :: rest)).length →
      ∀ c ∈ stated (first :: rest), Scalar.InUnit c) :
    ∃ w, agree first rest method = .ok w := by
  rw [← filterMap_id_map_confidence] at units
  rcases exists_combinedConfidence scores method units with ⟨combined, made, unit⟩
  cases combined with
  | none => exact ⟨_, bind_eq_ok_iff.2 ⟨none, made, rfl⟩⟩
  | some c =>
    rcases (leader outranks first rest).exists_withConfidence (unit c rfl) with ⟨w, hw⟩
    exact ⟨w, bind_eq_ok_iff.2 ⟨some c, made, validated_eq_ok_iff.2 hw⟩⟩

theorem exists_settle (scores : ScoresCombine R) (id p : String) {values : List (PropertyValue R)}
    (s : MergeStrategy) (present : values ≠ [])
    (units : ∀ contest, s = .contest contest → ∀ c ∈ stated values, Scalar.InUnit c) :
    ∃ conflict, settle id p values s = .ok conflict := by
  cases s with
  | union => exact ⟨_, rfl⟩
  | contest s =>
    have held : ∀ a ∈ values.map candidate, ∀ c, a.confidence = some c → Scalar.InUnit c := by
      intro a ha c hc
      rcases List.mem_map.1 ha with ⟨v, hv, rfl⟩
      rcases confidence_of_candidate hc with same | rfl
      · exact units s rfl c (List.mem_filterMap.2 ⟨v, hv, same⟩)
      · exact scores.half
    rcases exists_resolve scores s (by simpa using present) held with ⟨r, hr⟩
    exact ⟨_, bind_eq_ok_iff.2 ⟨r, hr, rfl⟩⟩

section
variable {graphs : List (Graph R)} {options : MergeOptions}

theorem exists_becomes_of_checked (scores : ScoresCombine R)
    (units : ∀ c, Checked graphs options c → Scalar.InUnit c) {id p : String}
    (named : p ∈ propertyNames (membersOf (graphs.flatMap Graph.nodes) id)) :
    ∃ o, Becomes options id (membersOf (graphs.flatMap Graph.nodes) id) p o := by
  cases values : valuesOf (membersOf (graphs.flatMap Graph.nodes) id) p with
  | nil => exact absurd named (valuesOf_eq_nil_iff.1 values)
  | cons first rest =>
    by_cases same : ∀ v ∈ rest, v.agrees first = true
    · rcases exists_agree scores options.combination (fun several c mem =>
        units c (.agreed id p first rest values same several mem)) with ⟨w, hw⟩
      exact ⟨.agreed w, first, rest, values, (reconcile_eq_ok_of_agree same).2 ⟨w, hw, rfl⟩⟩
    · have contested : Contested (valuesOf (membersOf (graphs.flatMap Graph.nodes) id) p) :=
        values ▸ contested_cons_iff.2 same
      rcases exists_settle scores id p options.strategy (List.cons_ne_nil first rest)
        (fun s contest c mem => units c (.contested id p s contest contested (values ▸ mem))) with
        ⟨conflict, settled⟩
      exact ⟨.contested conflict, first, rest, values,
        (reconcile_eq_ok_of_not_agree same).2 ⟨conflict, settled, rfl⟩⟩

theorem exists_merges_of_checked (scores : ScoresCombine R)
    (units : ∀ c, Checked graphs options c → Scalar.InUnit c) (id : String) :
    ∃ k : MergedNode R, k.id = id ∧
      k.Merges options (membersOf (graphs.flatMap Graph.nodes) id) := by
  have held : 2 ≤ ((membersOf (graphs.flatMap Graph.nodes) id).filterMap Node.confidence).length →
      ∀ c ∈ (membersOf (graphs.flatMap Graph.nodes) id).filterMap Node.confidence,
        Scalar.InUnit c :=
    fun several c mem => units c (.node id several mem)
  rw [← filterMap_id_map_node] at held
  obtain ⟨combined, made, -⟩ := exists_combinedConfidence scores options.combination held
  have outcome (p : String)
      (named : p ∈ propertyNames (membersOf (graphs.flatMap Graph.nodes) id)) :
      ∃ o : String × Outcome R, o.1 = p ∧
        Becomes options id (membersOf (graphs.flatMap Graph.nodes) id) p o.2 := by
    rcases exists_becomes_of_checked scores units named with ⟨o, becomes⟩
    exact ⟨(p, o), rfl, becomes⟩
  rcases exists_forall₂ outcome with ⟨outcomes, ho⟩
  exact ⟨⟨id, unionTypes (membersOf (graphs.flatMap Graph.nodes) id),
    combined <|> (membersOf (graphs.flatMap Graph.nodes) id).findSome? Node.confidence, outcomes⟩,
    rfl, rfl, ⟨combined, made, rfl⟩, ho⟩

/-- A merge of two graphs or more succeeds where all that it checks are scores. -/
theorem exists_merge_of_checked (scores : ScoresCombine R) (enough : 2 ≤ graphs.length)
    (units : ∀ c, Checked graphs options c → Scalar.InUnit c) :
    ∃ m report, Graph.merge graphs options = .ok (m, report) := by
  have covers := gather_covers (graphs.flatMap Graph.nodes)
  have mergeable : ∀ b ∈ (gather (graphs.flatMap Graph.nodes)).buckets,
      ∃ k : MergedNode R, k.id = b.id ∧ k.Merges options b.members := by
    intro b hb
    rw [covers.members_eq b hb]
    exact exists_merges_of_checked scores units b.id
  rcases exists_forall₂ mergeable with ⟨merged, hm⟩
  exact ⟨_, _, merge_eq_ok_iff.2 ⟨enough, merged, hm, rfl, rfl⟩⟩

end

/-- A merge of two graphs or more refuses for a value outside its domain where something that it
checks is not a score, and if scores combine to scores it refuses nowhere else. -/
theorem merge_refuses_checked {graphs : List (Graph R)} (options : MergeOptions)
    (enough : 2 ≤ graphs.length) :
    (∀ c, Checked graphs options c → ∃ g ∈ graphs, c ∈ g.confidences) ∧
    ((∃ c, Checked graphs options c ∧ ¬ Scalar.InUnit c) →
      ∃ fault, Graph.merge graphs options = .error (.validation fault)) ∧
    (ScoresCombine R → (∀ c, Checked graphs options c → Scalar.InUnit c) →
      ∃ m report, Graph.merge graphs options = .ok (m, report)) := by
  refine ⟨fun c checked => checked.exists_mem, ?_, fun scores units =>
    exists_merge_of_checked scores enough units⟩
  rintro ⟨c, checked, outside⟩
  refine (merge_validates graphs options).exists_error ?_
  rintro ⟨m, report⟩ run
  exact outside (checked.inUnit run)

def holding (confidence : Option Float) : Graph Float :=
  .single { (Node.ofId "x" : Node Float) with confidence := confidence }

theorem merge_refuses_undefined :
    ∃ fault, Graph.merge [holding (some (0.0 / 0.0)), holding (some 0.5)] default =
      .error (.validation fault) := by
  have outside : ¬ Scalar.InUnit (0.0 / 0.0 : Float) := by decide +kernel
  have checked : Checked [holding (some (0.0 / 0.0)), holding (some 0.5)] default (0.0 / 0.0) :=
    .node "x" (by decide) List.mem_cons_self
  have enough : 2 ≤ [holding (some (0.0 / 0.0)), holding (some 0.5)].length := Nat.le_refl 2
  exact (merge_refuses_checked default enough).2.1 ⟨_, checked, outside⟩

/-- A confidence of two passes where the other source states none. -/
theorem merge_passes_two :
    2 ≤ [holding (some 2), holding none].length ∧
      (∃ g ∈ [holding (some 2), holding none], ∃ c ∈ g.confidences, ¬ Scalar.InUnit c) ∧
      ∃ m report, Graph.merge [holding (some 2), holding none] default = .ok (m, report) := by
  refine ⟨Nat.le_refl 2, ⟨_, List.mem_cons_self, 2, List.mem_cons_self, by decide +kernel⟩, ?_⟩
  obtain ⟨⟨m, report⟩, run⟩ := exists_eq_ok_of_isOk
    (show (Graph.merge [holding (some 2), holding none] default).isOk = true by decide +kernel)
  exact ⟨m, report, run⟩

end Credence.Merge
