import Credence.Proofs.Graph.ReadBack
import Credence.Proofs.Merge.Provenance
import Credence.Proofs.Merge.Refusal
import Credence.Proofs.Scalar.Tenths

/-! # Merges of what is read from documents

A condition on assertions and one on nodes that survive another score and the merge of nodes with
one identifier hold throughout a merged graph where they hold throughout its sources. To be
well-formed is such a condition. So what is read from documents can be merged under any options,
and the merged graph is read back from what is written for it.
-/

namespace Credence.Merge
open PropertyValue
variable {R : Type} [Scalar R] [NumberText R]

/-- Conditions that no step of a merge breaks. -/
structure Kept (A : Assertion R → Prop) (N : Node R → Prop) : Prop where
  literal : ∀ l c, Scalar.InUnit c → A { Assertion.ofLiteral l with confidence := some c }
  assertion : ∀ a c, A a → Scalar.InUnit c → A { a with confidence := some c }
  node : ∀ n c, N n → Scalar.InUnit c → N { n with confidence := some c }
  merged : ∀ (k : MergedNode R) (options : MergeOptions) (members : List (Node R)),
    (∀ n ∈ members, N n) → k.Merges options members → N k.node

variable {A : Assertion R → Prop} {N : Node R → Prop}

theorem Kept.withConfidence (kept : Kept A N) {v w : PropertyValue R} (hv : v.Throughout A N)
    {c : R} (unit : Scalar.InUnit c) (h : v.withConfidence c = .ok w) : w.Throughout A N := by
  cases hv with
  | literal l =>
    rw [PropertyValue.withConfidence, Assertion.withConfidence_eq_ok _ unit] at h
    cases h
    exact .annotated (kept.literal l c unit)
  | annotated holds =>
    rw [PropertyValue.withConfidence, Assertion.withConfidence_eq_ok _ unit] at h
    cases h
    exact .annotated (kept.assertion _ c holds unit)
  | node holds values =>
    cases h
    exact .node (kept.node _ c holds unit) values
  | list parts =>
    cases h
    exact .list parts

theorem Kept.asWinner (kept : Kept A N) {v : PropertyValue R} (hv : v.Throughout A N)
    {winner : Assertion R} (units : ∀ c, winner.confidence = some c → Scalar.InUnit c)
    (h : winner = v.candidate ∨ ∃ c, winner = { v.candidate with confidence := some c }) :
    (v.asWinner winner).Throughout A N := by
  cases hv with
  | literal l =>
    rcases h with rfl | ⟨c, rfl⟩
    · exact .annotated (kept.literal l _ (units _ rfl))
    · exact .annotated (kept.literal l c (units c rfl))
  | annotated holds =>
    rcases h with rfl | ⟨c, rfl⟩
    · exact .annotated holds
    · exact .annotated (kept.assertion _ c holds (units c rfl))
  | node holds values => exact .node holds values
  | list parts => exact .list parts

theorem Kept.agree (kept : Kept A N) (scores : ScoresCombine R) {first w : PropertyValue R}
    {rest : List (PropertyValue R)} (values : ∀ v ∈ first :: rest, v.Throughout A N)
    {method : Combination} (h : agree first rest method = .ok w) : w.Throughout A N := by
  have lead := values _ (leader_mem outranks first rest)
  rcases agree_eq_ok_iff.1 h with ⟨-, rfl⟩ | ⟨-, result, combined, hw⟩
  · exact lead
  · exact kept.withConfidence lead (scores.combined _ _ _ combined) hw

theorem Kept.settle (kept : Kept A N) (scores : ScoresCombine R) {id p : String}
    {values : List (PropertyValue R)} (hv : ∀ v ∈ values, v.Throughout A N) {s : MergeStrategy}
    {conflict : Conflict R} (h : settle id p values s = .ok conflict) :
    conflict.winner.Throughout A N := by
  cases s with
  | union =>
    cases h
    exact .list hv
  | contest s =>
    rcases exists_of_settle_contest h with ⟨r, v, hr, found, winner⟩
    rcases resolve_elects hr with ⟨a, found', elected⟩
    rw [List.getElem?_map, found] at found'
    cases found'
    rw [winner]
    exact kept.asWinner (hv v (List.mem_of_getElem? found))
      (fun c hc => inUnit_of_winner scores hr hc) elected

theorem Kept.becomes (kept : Kept A N) (scores : ScoresCombine R) {options : MergeOptions}
    {id p : String} {members : List (Node R)}
    (hm : ∀ n ∈ members, (PropertyValue.node n).Throughout A N) {o : Outcome R}
    (h : Becomes options id members p o) : o.value.Throughout A N := by
  rcases h with ⟨first, rest, values, reconciled⟩
  have held : ∀ v ∈ first :: rest, v.Throughout A N := by
    intro v hv
    rw [← values] at hv
    rcases mem_valuesOf.1 hv with ⟨n, hn, found⟩
    exact Node.values_of_throughout (hm n hn) _ (Fields.mem_of_get?_eq_some found)
  by_cases same : ∀ v ∈ rest, v.agrees first = true
  · rcases (reconcile_eq_ok_of_agree same).1 reconciled with ⟨w, hw, rfl⟩
    exact kept.agree scores held hw
  · rcases (reconcile_eq_ok_of_not_agree same).1 reconciled with ⟨conflict, hc, rfl⟩
    exact kept.settle scores held hc

theorem Kept.merges (kept : Kept A N) (scores : ScoresCombine R) {options : MergeOptions}
    {members : List (Node R)} (hm : ∀ n ∈ members, (PropertyValue.node n).Throughout A N)
    {k : MergedNode R} (h : k.Merges options members) :
    (PropertyValue.node k.node).Throughout A N := by
  apply Throughout.node
  · exact kept.merged k options members (fun n hn => Node.holds_of_throughout (hm n hn)) h
  · intro f hf
    rcases List.mem_map.1 hf with ⟨o, ho, rfl⟩
    exact kept.becomes scores hm (h.becomes_of_mem ho)

/-- What no step breaks holds throughout a merged graph if it does throughout its sources. -/
theorem Kept.merge (kept : Kept A N) (scores : ScoresCombine R) {graphs : List (Graph R)}
    (sources : ∀ g ∈ graphs, g.Throughout A N) {options : MergeOptions} {m : Graph R}
    {report : MergeReport R} (h : Graph.merge graphs options = .ok (m, report)) :
    m.Throughout A N := by
  have source (n : Node R) (hn : n ∈ graphs.flatMap Graph.nodes) :
      (PropertyValue.node n).Throughout A N := by
    rcases List.mem_flatMap.1 hn with ⟨g, hg, hn⟩
    exact sources g hg n hn
  rcases exists_assembled h with ⟨merged, assembled⟩
  intro n hn
  rw [assembled.nodes_eq] at hn
  rcases List.mem_append.1 hn with hn | hn
  · rcases List.mem_map.1 hn with ⟨k, hk, rfl⟩
    exact kept.merges scores (fun n hn => source n (mem_membersOf.1 hn).1) (assembled.merges k hk)
  · exact source n (List.mem_filter.1 hn).1

theorem inUnit_of_combinedConfidence {R : Type} [Scalar R] (scores : ScoresCombine R)
    {confidences : List (Option R)} {method : Combination} {c : R}
    (h : combinedConfidence confidences method = .ok (some c)) : Scalar.InUnit c := by
  by_cases few : (confidences.filterMap id).length < 2
  · rw [combinedConfidence_of_few method few] at h
    cases h
  · rw [combinedConfidence_of_enough method (Nat.not_lt.1 few)] at h
    rcases map_eq_ok_iff.1 h with ⟨result, combined, same⟩
    exact Option.some.inj same ▸ scores.combined _ _ _ combined

theorem MergedNode.Merges.inUnit (scores : ScoresCombine R) {k : MergedNode R}
    {options : MergeOptions} {members : List (Node R)} (h : k.Merges options members)
    (units : ∀ n ∈ members, ∀ c, n.confidence = some c → Scalar.InUnit c) {c : R}
    (hc : k.confidence = some c) : Scalar.InUnit c := by
  rcases h.confidence_eq with ⟨combined, made, held⟩
  cases combined with
  | some c' =>
    have same : some c = some c' := hc.symm.trans held
    exact Option.some.inj same ▸ inUnit_of_combinedConfidence scores made
  | none =>
    have found : members.findSome? Node.confidence = some c := held.symm.trans hc
    rcases List.exists_of_findSome?_eq_some found with ⟨n, hn, stated⟩
    exact units n hn c stated

theorem MergedNode.Merges.exists_property {k : MergedNode R} {options : MergeOptions}
    {members : List (Node R)} (h : k.Merges options members) {f : String × PropertyValue R}
    (hf : f ∈ k.node.properties) : ∃ n ∈ members, ∃ f' ∈ n.properties, f'.1 = f.1 := by
  have named : f.1 ∈ k.node.propertyNames := List.mem_map_of_mem hf
  rw [h.propertyNames_node, mem_propertyNames] at named
  rcases named with ⟨n, hn, named⟩
  rcases List.mem_map.1 named with ⟨f', hf', same⟩
  exact ⟨n, hn, f', hf', same⟩

theorem kept_wellFormed (scores : ScoresCombine R) :
    Kept (R := R) Assertion.WellFormed Node.WellFormed where
  literal l c unit := .of_score rfl (fun c' held => Option.some.inj held ▸ unit)
  assertion a c h unit := h.held unit
  node n c h unit :=
    ⟨fun c' held => Option.some.inj held ▸ unit, h.ordered, h.named, h.unmarked⟩
  merged k options members h merges := by
    constructor
    case score => exact fun c hc => merges.inUnit scores (fun n hn => (h n hn).score) hc
    case ordered => exact List.pairwise_map.2 merges.ordered_outcomes
    case named =>
      intro f hf
      rcases merges.exists_property hf with ⟨n, hn, f', hf', same⟩
      exact same ▸ (h n hn).named f' hf'
    case unmarked =>
      intro f hf
      rcases merges.exists_property hf with ⟨n, hn, f', hf', same⟩
      exact same ▸ (h n hn).unmarked f' hf'

theorem kept_dated : Kept (R := R) Assertion.Dated (fun _ => True) where
  literal l c unit t held := by cases held
  assertion a c dated unit := dated
  node n c _ unit := trivial
  merged k options members _ merges := trivial

section
variable {graphs : List (Graph R)}

theorem wellFormed_merge (scores : ScoresCombine R) (formed : ∀ g ∈ graphs, g.WellFormed)
    {options : MergeOptions} {m : Graph R} {report : MergeReport R}
    (h : Graph.merge graphs options = .ok (m, report)) : m.WellFormed := by
  constructor
  case context =>
    intro c hc
    rw [context_eq h] at hc
    rcases List.exists_of_findSome?_eq_some hc with ⟨g, hg, held⟩
    exact (formed g hg).context c held
  case nodes => exact (kept_wellFormed scores).merge scores (fun g hg => (formed g hg).nodes) h

theorem exists_merge_of_wellFormed (scores : ScoresCombine R) (options : MergeOptions)
    (enough : 2 ≤ graphs.length) (formed : ∀ g ∈ graphs, g.WellFormed) :
    ∃ m report, Graph.merge graphs options = .ok (m, report) := by
  refine exists_merge_of_checked scores enough (fun c checked => ?_)
  rcases checked.exists_mem with ⟨g, hg, hc⟩
  exact (formed g hg).inUnit c hc

/-- Graphs that are read from documents can be merged under any options. All confidences of the
merged graph are scores, and it is read back from what is written for it. -/
theorem merge_closed (scores : ScoresCombine R) (finite : ScoresFinite R) (options : MergeOptions)
    (enough : 2 ≤ graphs.length) (decoded : ∀ g ∈ graphs, g.Decoded) :
    ∃ m report, Graph.merge graphs options = .ok (m, report) ∧
      (∀ c ∈ m.confidences, Scalar.InUnit c) ∧ Graph.ofJson m.toJson = .ok m := by
  have formed (g : Graph R) (hg : g ∈ graphs) := (decoded g hg).wellFormed
  rcases exists_merge_of_wellFormed scores options enough formed with ⟨m, report, run⟩
  have kept := wellFormed_merge scores formed run
  have dated (g : Graph R) (hg : g ∈ graphs) := (decoded g hg).dated
  exact ⟨m, report, run, kept.inUnit, kept.ofJson_toJson (kept_dated.merge scores dated run) finite⟩

end

def noted (name : String) (held : ℚ) : Assertion ℚ :=
  ⟨.text name, some held, none, some ⟨1704067200, 0⟩, none, [("@lang", .text "en")]⟩

def known (name : String) (held : ℚ) : Graph ℚ :=
  .single ⟨some "ex:ada", ["Person"], some held, [("name", .annotated (noted name held))]⟩

theorem dated_known (name : String) (held : ℚ) : (known name held).Dated := by
  have instant : (noted name held).Dated := by
    intro t ht
    cases ht
    rfl
  exact List.forall_mem_singleton.2
    (.node trivial (List.forall_mem_singleton.2 (.annotated instant)))

theorem decoded_known (name : String) {held : ℚ} (unit : Scalar.InUnit held) :
    (known name held).Decoded := by
  have score (c : ℚ) (hc : some held = some c) : Scalar.InUnit c := Option.some.inj hc ▸ unit
  have assertion : (noted name held).WellFormed :=
    ⟨score, List.pairwise_singleton _ _, List.forall_mem_singleton.2 (.text "en"),
      List.forall_mem_singleton.2 rfl, List.forall_mem_singleton.2 (by decide)⟩
  rw [Graph.decoded_iff (dated_known name held) (fun c _ => rfl)]
  constructor
  case context =>
    intro c hc
    cases hc
  case nodes =>
    refine List.forall_mem_singleton.2
      (.node ?_ (List.forall_mem_singleton.2 (.annotated assertion)))
    constructor
    case score => exact score
    case ordered => exact List.pairwise_singleton _ _
    case named => exact List.forall_mem_singleton.2 (show ¬ Node.Reserved "name" by decide)
    case unmarked => exact List.forall_mem_singleton.2 (show "name" ≠ Keyword.value by decide)

theorem merge_closed_names :
    ∃ m report, Graph.merge [known "Ada" (1 / 2), known "Augusta" (9 / 10)]
        ⟨.contest .weightedVote, .noisyOr⟩ = .ok (m, report) ∧
      (∀ c ∈ m.confidences, Scalar.InUnit c) ∧ Graph.ofJson m.toJson = .ok m := by
  have half : Scalar.InUnit (1 / 2 : ℚ) := ⟨by norm_num, by norm_num⟩
  have most : Scalar.InUnit (9 / 10 : ℚ) := ⟨by norm_num, by norm_num⟩
  have decoded : ∀ g ∈ [known "Ada" (1 / 2), known "Augusta" (9 / 10)], g.Decoded :=
    List.forall_mem_cons.2
      ⟨decoded_known "Ada" half, List.forall_mem_singleton.2 (decoded_known "Augusta" most)⟩
  exact merge_closed scoresCombine (fun c _ => rfl) _ (Nat.le_refl 2) decoded

end Credence.Merge
