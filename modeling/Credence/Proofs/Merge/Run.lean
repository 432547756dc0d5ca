import Credence.Merge.Reconcile
import Credence.Proofs.Fields
import Credence.Proofs.Merge.Gathering
import Credence.Proofs.Traversal

/-! # Successful merges taken apart

A merge succeeds exactly when every bucket is merged, and a bucket exactly when the confidences
of its nodes combine and every property any of them has is reconciled. What a merged graph holds
under an identifier and a property is then what became of that property in that bucket.
-/

namespace Credence.Merge
variable {R : Type}

theorem mem_propertyNames {members : List (Node R)} {p : String} :
    p ∈ propertyNames members ↔ ∃ n ∈ members, p ∈ n.propertyNames := by
  simp [propertyNames, mem_sortedNames]

theorem mem_valuesOf {members : List (Node R)} {p : String} {v : PropertyValue R} :
    v ∈ valuesOf members p ↔ ∃ n ∈ members, n.get? p = some v := by
  simp [valuesOf]

theorem valuesOf_append (members more : List (Node R)) (p : String) :
    valuesOf (members ++ more) p = valuesOf members p ++ valuesOf more p := List.filterMap_append

theorem valuesOf_eq_nil_iff {members : List (Node R)} {p : String} :
    valuesOf members p = [] ↔ p ∉ propertyNames members := by
  rw [mem_propertyNames, valuesOf, List.filterMap_eq_nil_iff]
  simp only [Node.get?, Fields.get?_eq_none_iff, not_exists, not_and]
  exact Iff.rfl

theorem named_of_valuesOf_ne_nil {nodes : List (Node R)} {id p : String}
    (h : valuesOf (membersOf nodes id) p ≠ []) :
    p ∈ propertyNames (membersOf nodes id) ∧ some id ∈ nodes.map Node.id := by
  have named : p ∈ propertyNames (membersOf nodes id) :=
    by_contra (fun absent => h (valuesOf_eq_nil_iff.2 absent))
  rcases mem_propertyNames.1 named with ⟨n, hn, -⟩
  exact ⟨named, membersOf_ne_nil_iff.1 (List.ne_nil_of_mem hn)⟩

theorem find?_node {ks : List (MergedNode R)} (distinct : (ks.map MergedNode.id).Nodup)
    {k : MergedNode R} (hk : k ∈ ks) :
    (ks.map MergedNode.node).find? (fun n => n.id == some k.id) = some k.node := by
  induction ks with
  | nil => cases hk
  | cons l rest ih =>
    rw [List.map_cons, List.nodup_cons] at distinct
    rw [List.map_cons]
    rcases List.mem_cons.1 hk with rfl | behind
    · exact List.find?_cons_of_pos (by simp [MergedNode.node])
    · have other : ¬ (l.node.id == some k.id) = true := by
        intro same
        have : l.id = k.id := by simpa [MergedNode.node] using same
        exact distinct.1 (this ▸ List.mem_map_of_mem behind)
      exact (List.find?_cons_of_neg (p := fun n : Node R => n.id == some k.id) other).trans
        (ih distinct.2 behind)

/-- What a graph holds under an identifier and a property. -/
def heldAt (g : Graph R) (id p : String) : Option (PropertyValue R) :=
  (g.node? id).bind (fun n => n.get? p)

variable [Scalar R] [NumberText R]

/-- What a property of some nodes with one identifier may become. -/
def Becomes (options : MergeOptions) (id : String) (members : List (Node R)) (p : String)
    (o : Outcome R) : Prop :=
  ∃ first rest, valuesOf members p = first :: rest ∧
    reconcile options id p first rest = .ok o

theorem mergeProperty_eq_ok_iff {options : MergeOptions} {id p : String}
    {members : List (Node R)} (hp : p ∈ propertyNames members) {os : List (String × Outcome R)} :
    mergeProperty options id members p = .ok os ↔
      ∃ o, os = [(p, o)] ∧ Becomes options id members p o := by
  unfold mergeProperty Becomes
  cases hv : valuesOf members p with
  | nil => exact absurd hp (valuesOf_eq_nil_iff.1 hv)
  | cons first rest =>
    simp only [map_eq_ok_iff]
    constructor
    · rintro ⟨o, ho, rfl⟩
      exact ⟨o, rfl, first, rest, rfl, ho⟩
    · rintro ⟨o, rfl, first', rest', same, ho⟩
      cases same
      exact ⟨o, ho, rfl⟩

theorem mergeProperties_flatten {options : MergeOptions} {id : String} {members : List (Node R)}
    {names : List String} (hn : ∀ p ∈ names, p ∈ propertyNames members)
    {oss : List (List (String × Outcome R))}
    (h : List.Forall₂ (fun p os => mergeProperty options id members p = .ok os) names oss) :
    List.Forall₂ (fun p o => o.1 = p ∧ Becomes options id members p o.2) names oss.flatten := by
  induction h with
  | nil => exact .nil
  | @cons p os names oss hp _ ih =>
    rcases (mergeProperty_eq_ok_iff (hn p List.mem_cons_self)).1 hp with ⟨o, rfl, ho⟩
    exact .cons ⟨rfl, ho⟩ (ih (fun q hq => hn q (List.mem_cons_of_mem p hq)))

theorem exists_mergeProperties {options : MergeOptions} {id : String} {members : List (Node R)}
    {names : List String} (hn : ∀ p ∈ names, p ∈ propertyNames members)
    {os : List (String × Outcome R)}
    (h : List.Forall₂ (fun p o => o.1 = p ∧ Becomes options id members p o.2) names os) :
    ∃ oss, List.Forall₂ (fun p os => mergeProperty options id members p = .ok os) names oss ∧
      oss.flatten = os := by
  induction h with
  | nil => exact ⟨[], .nil, rfl⟩
  | @cons p o names os hp _ ih =>
    rcases ih (fun q hq => hn q (List.mem_cons_of_mem p hq)) with ⟨oss, hoss, rfl⟩
    rcases hp with ⟨rfl, hp⟩
    have here := (mergeProperty_eq_ok_iff (hn o.1 List.mem_cons_self)).2 ⟨o.2, rfl, hp⟩
    exact ⟨[o] :: oss, .cons here hoss, rfl⟩

/-- What a merged node is, given the nodes that it is merged from. -/
structure MergedNode.Merges (k : MergedNode R) (options : MergeOptions)
    (members : List (Node R)) : Prop where
  types_eq : k.types = unionTypes members
  confidence_eq : ∃ combined,
    combinedConfidence (members.map Node.confidence) options.combination = .ok combined ∧
      k.confidence = (combined <|> members.findSome? Node.confidence)
  outcomes : List.Forall₂ (fun p o => o.1 = p ∧ Becomes options k.id members p o.2)
    (propertyNames members) k.outcomes

/-- A bucket is merged exactly to what `Merges` describes. -/
theorem mergeNode_eq_ok_iff {options : MergeOptions} {id : String} {members : List (Node R)}
    {k : MergedNode R} :
    mergeNode options id members = .ok k ↔ k.id = id ∧ k.Merges options members := by
  unfold mergeNode
  simp only [bind_eq_ok_iff, mapM_eq_ok_iff]
  constructor
  · rintro ⟨combined, hc, oss, hoss, h⟩
    obtain rfl := Except.ok.inj h
    exact ⟨rfl, rfl, ⟨combined, hc, rfl⟩, mergeProperties_flatten (fun _ hp => hp) hoss⟩
  · rintro ⟨rfl, htypes, ⟨combined, hc, hconf⟩, hout⟩
    rcases exists_mergeProperties (fun _ hp => hp) hout with ⟨oss, hoss, hflat⟩
    refine ⟨combined, hc, oss, hoss, ?_⟩
    rw [hflat, ← htypes, ← hconf]
    rfl

/-- Everything a successful merge does, and when it succeeds. -/
theorem merge_eq_ok_iff {graphs : List (Graph R)} {options : MergeOptions} {m : Graph R}
    {report : MergeReport R} :
    Graph.merge graphs options = .ok (m, report) ↔ 2 ≤ graphs.length ∧
      ∃ merged, List.Forall₂ (fun b k => k.id = b.id ∧ k.Merges options b.members)
          (gather (graphs.flatMap Graph.nodes)).buckets merged ∧
        m = ⟨graphs.findSome? Graph.context, merged.map MergedNode.node ++
          (gather (graphs.flatMap Graph.nodes)).anonymous⟩ ∧
        report = reportOf graphs.length merged := by
  unfold Graph.merge
  by_cases few : graphs.length < 2
  · rw [if_pos few]
    have : ¬ 2 ≤ graphs.length := by omega
    simp [bind, Except.bind, throw, throwThe, MonadExceptOf.throw, this]
  · rw [if_neg few]
    have enough : 2 ≤ graphs.length := by omega
    simp only [bind_eq_ok_iff, mapM_eq_ok_iff, mergeNode_eq_ok_iff]
    constructor
    · rintro ⟨merged, hm, h⟩
      cases h
      exact ⟨enough, merged, hm, rfl, rfl⟩
    · rintro ⟨-, merged, hm, rfl, rfl⟩
      exact ⟨merged, hm, rfl⟩

theorem MergedNode.Merges.map_fst_outcomes {k : MergedNode R} {options : MergeOptions}
    {members : List (Node R)} (h : k.Merges options members) :
    k.outcomes.map Prod.fst = propertyNames members := by
  have outcomes := h.outcomes
  generalize propertyNames members = names, k.outcomes = os at outcomes ⊢
  induction outcomes with
  | nil => rfl
  | cons hp _ ih => rw [List.map_cons, ih, hp.1]

theorem MergedNode.Merges.propertyNames_node {k : MergedNode R} {options : MergeOptions}
    {members : List (Node R)} (h : k.Merges options members) :
    k.node.propertyNames = propertyNames members := by
  rw [← h.map_fst_outcomes]
  simp [Node.propertyNames, MergedNode.node, Fields.names, Function.comp_def]

theorem MergedNode.Merges.becomes_of_mem {k : MergedNode R} {options : MergeOptions}
    {members : List (Node R)} (h : k.Merges options members) {o : String × Outcome R}
    (ho : o ∈ k.outcomes) : Becomes options k.id members o.1 o.2 := by
  rcases exists_mem_of_forall₂ h.outcomes.flip ho with ⟨p, -, same, becomes⟩
  exact same ▸ becomes

theorem MergedNode.Merges.ordered_outcomes {k : MergedNode R} {options : MergeOptions}
    {members : List (Node R)} (h : k.Merges options members) :
    k.outcomes.Pairwise (fun o o' => o.1 < o'.1) := by
  have increasing : (k.outcomes.map Prod.fst).Pairwise (· < ·) := by
    rw [h.map_fst_outcomes]
    exact sortedNames_increasing _
  exact List.pairwise_map.1 increasing

theorem MergedNode.Merges.get?_node_of_mem {k : MergedNode R} {options : MergeOptions}
    {members : List (Node R)} (h : k.Merges options members) {o : String × Outcome R}
    (ho : o ∈ k.outcomes) : k.node.get? o.1 = some o.2.value := by
  have ordered : Fields.Ordered k.node.properties := List.pairwise_map.2 h.ordered_outcomes
  exact Fields.get?_eq_some_of_mem ordered
    (List.mem_map_of_mem (f := fun o : String × Outcome R => (o.1, o.2.value)) ho)

theorem MergedNode.Merges.get?_node {k : MergedNode R} {options : MergeOptions}
    {members : List (Node R)} (h : k.Merges options members) {p : String}
    (hp : p ∈ propertyNames members) :
    ∃ o, Becomes options k.id members p o ∧ k.node.get? p = some o.value := by
  rcases exists_mem_of_forall₂ h.outcomes hp with ⟨o, ho, rfl, becomes⟩
  exact ⟨o.2, becomes, h.get?_node_of_mem ho⟩

/-- How a merged graph and its account are put together from merged nodes, one for every
identifier of the sources. -/
structure Assembled (graphs : List (Graph R)) (options : MergeOptions) (m : Graph R)
    (report : MergeReport R) (merged : List (MergedNode R)) : Prop where
  ids : ListsIds (graphs.flatMap Graph.nodes) (merged.map MergedNode.id)
  merges : ∀ k ∈ merged, k.Merges options (membersOf (graphs.flatMap Graph.nodes) k.id)
  nodes_eq : m.nodes = merged.map MergedNode.node ++
    (graphs.flatMap Graph.nodes).filter Node.isAnonymous
  report_eq : report = reportOf graphs.length merged

section Merged
variable {graphs : List (Graph R)} {options : MergeOptions} {m : Graph R}
  {report : MergeReport R} {merged : List (MergedNode R)}

/-- Every successful merge is put together so. -/
theorem exists_assembled (h : Graph.merge graphs options = .ok (m, report)) :
    ∃ merged, Assembled graphs options m report merged := by
  rcases merge_eq_ok_iff.1 h with ⟨-, merged, hm, rfl, rfl⟩
  have covers := gather_covers (graphs.flatMap Graph.nodes)
  have ids : merged.map MergedNode.id =
      (gather (graphs.flatMap Graph.nodes)).buckets.map Bucket.id :=
    map_eq_map_of_forall₂ (hm.imp (fun _ _ hbk => hbk.1))
  refine ⟨merged, ids ▸ covers.ids, fun k hk => ?_, by rw [covers.anonymous_eq], rfl⟩
  rcases exists_mem_of_forall₂ hm.flip hk with ⟨b, hb, same, merges⟩
  rw [covers.members_eq b hb, ← same] at merges
  exact merges

namespace Assembled

theorem exists_of_id (h : Assembled graphs options m report merged) {id : String}
    (hid : some id ∈ (graphs.flatMap Graph.nodes).map Node.id) : ∃ k ∈ merged, k.id = id :=
  List.mem_map.1 ((h.ids.mem_iff id).2 hid)

theorem node?_eq (h : Assembled graphs options m report merged) {k : MergedNode R}
    (hk : k ∈ merged) : m.node? k.id = some k.node := by
  unfold Graph.node?
  rw [h.nodes_eq, List.find?_append, find?_node h.ids.nodup hk]
  rfl

end Assembled

/-- Two merged graphs have a part of their nodes in common if their merged nodes have, one by one,
and the nodes without an identifier are the same. -/
theorem Assembled.map_nodes_eq {graphs' : List (Graph R)} {options' : MergeOptions}
    {m' : Graph R} {report' : MergeReport R} {merged' : List (MergedNode R)}
    (h : Assembled graphs options m report merged)
    (h' : Assembled graphs' options' m' report' merged')
    (anonymous : (graphs.flatMap Graph.nodes).filter Node.isAnonymous =
      (graphs'.flatMap Graph.nodes).filter Node.isAnonymous) {α : Type} {part : Node R → α}
    (same : List.Forall₂ (fun k k' => part k.node = part k'.node) merged merged') :
    m.nodes.map part = m'.nodes.map part := by
  have identified : merged'.map (part ∘ MergedNode.node) = merged.map (part ∘ MergedNode.node) :=
    map_eq_map_of_forall₂ (same.imp (fun _ _ hk => hk.symm))
  rw [h.nodes_eq, h'.nodes_eq, List.map_append, List.map_append, List.map_map, List.map_map,
    identified, anonymous]

/-- An identifier of the sources has a node in the merged graph, made from the nodes with it. -/
theorem exists_mergedNode (h : Graph.merge graphs options = .ok (m, report)) {id : String}
    (hid : some id ∈ (graphs.flatMap Graph.nodes).map Node.id) :
    ∃ k : MergedNode R, k.id = id ∧ k.Merges options (membersOf (graphs.flatMap Graph.nodes) id) ∧
      m.node? id = some k.node := by
  rcases exists_assembled h with ⟨merged, assembled⟩
  rcases assembled.exists_of_id hid with ⟨k, hk, rfl⟩
  exact ⟨k, rfl, assembled.merges k hk, assembled.node?_eq hk⟩

theorem node?_eq_none (h : Graph.merge graphs options = .ok (m, report)) {id : String}
    (hid : some id ∉ (graphs.flatMap Graph.nodes).map Node.id) : m.node? id = none := by
  rcases exists_assembled h with ⟨merged, assembled⟩
  unfold Graph.node?
  rw [assembled.nodes_eq, List.find?_eq_none]
  intro n hn same
  have same : n.id = some id := by simpa using same
  rcases List.mem_append.1 hn with hn | hn
  · rcases List.mem_map.1 hn with ⟨k, hk, rfl⟩
    have : k.id = id := Option.some.inj same
    exact hid ((assembled.ids.mem_iff id).1 (this ▸ List.mem_map_of_mem hk))
  · exact hid (same ▸ List.mem_map_of_mem (List.mem_filter.1 hn).1)

theorem context_eq (h : Graph.merge graphs options = .ok (m, report)) :
    m.context = graphs.findSome? Graph.context := by
  rcases merge_eq_ok_iff.1 h with ⟨-, merged, -, rfl, -⟩
  rfl

theorem filter_isAnonymous (h : Graph.merge graphs options = .ok (m, report)) :
    m.nodes.filter Node.isAnonymous = (graphs.flatMap Graph.nodes).filter Node.isAnonymous := by
  rcases exists_assembled h with ⟨merged, assembled⟩
  have identified : (merged.map MergedNode.node).filter Node.isAnonymous = [] := by
    rw [List.filter_eq_nil_iff]
    intro n hn
    rcases List.mem_map.1 hn with ⟨k, -, rfl⟩
    simp [Node.isAnonymous, MergedNode.node]
  rw [assembled.nodes_eq, List.filter_append, identified, List.filter_filter]
  simp

/-- What a merged graph holds under an identifier and a property that the sources give values. -/
theorem exists_becomes (h : Graph.merge graphs options = .ok (m, report)) {id p : String}
    {first : PropertyValue R} {rest : List (PropertyValue R)}
    (values : valuesOf (membersOf (graphs.flatMap Graph.nodes) id) p = first :: rest) :
    ∃ n o, m.node? id = some n ∧ n.get? p = some o.value ∧
      reconcile options id p first rest = .ok o := by
  obtain ⟨named, present⟩ := named_of_valuesOf_ne_nil (values ▸ List.cons_ne_nil first rest)
  rcases exists_mergedNode h present with ⟨k, rfl, merges, found⟩
  rcases merges.get?_node named with ⟨o, ⟨first', rest', values', ho⟩, held⟩
  rw [values] at values'
  cases values'
  exact ⟨k.node, o, found, held, ho⟩

theorem exists_heldAt (h : Graph.merge graphs options = .ok (m, report)) {id p : String}
    {first : PropertyValue R} {rest : List (PropertyValue R)}
    (values : valuesOf (membersOf (graphs.flatMap Graph.nodes) id) p = first :: rest) :
    ∃ o, heldAt m id p = some o.value ∧ reconcile options id p first rest = .ok o := by
  rcases exists_becomes h values with ⟨n, o, found, held, ho⟩
  refine ⟨o, ?_, ho⟩
  rw [heldAt, found]
  exact held

theorem heldAt_eq_none (h : Graph.merge graphs options = .ok (m, report)) {id p : String}
    (values : valuesOf (membersOf (graphs.flatMap Graph.nodes) id) p = []) :
    heldAt m id p = none := by
  unfold heldAt
  by_cases present : some id ∈ (graphs.flatMap Graph.nodes).map Node.id
  · rcases exists_mergedNode h present with ⟨k, rfl, merges, found⟩
    have absent := valuesOf_eq_nil_iff.1 values
    rw [← merges.propertyNames_node] at absent
    rw [found]
    exact Fields.get?_eq_none_iff.2 absent
  · rw [node?_eq_none h present]
    rfl

end Merged

end Credence.Merge
