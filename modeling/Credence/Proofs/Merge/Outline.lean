import Credence.Proofs.Merge.Run
import Credence.Scalar.Binary64

/-! # The outline of a merged graph

Which nodes a merged graph has and in which order, which types and which properties they have, and
its context, are determined by the sources alone. Identified nodes come first, one for every
identifier in the order of first appearance, and every node without an identifier is kept.
-/

namespace Credence.Merge
variable {R : Type}

/-- What the sources determine of a merged graph, whatever the options. -/
structure Outline (graphs : List (Graph R)) (m : Graph R) : Prop where
  nodes_eq : m.nodes = m.nodes.filter (fun k => k.id.isSome) ++
    (graphs.flatMap Graph.nodes).filter Node.isAnonymous
  ids_listed : ListsIds (graphs.flatMap Graph.nodes) (m.nodes.filterMap Node.id)
  types_increasing : ∀ k ∈ m.nodes, k.id.isSome → k.types.Pairwise (· < ·)
  mem_types_iff : ∀ k ∈ m.nodes, k.id.isSome → ∀ t,
    t ∈ k.types ↔ ∃ n ∈ graphs.flatMap Graph.nodes, n.id = k.id ∧ t ∈ n.types
  names_increasing : ∀ k ∈ m.nodes, k.id.isSome → k.propertyNames.Pairwise (· < ·)
  mem_names_iff : ∀ k ∈ m.nodes, k.id.isSome → ∀ p,
    p ∈ k.propertyNames ↔ ∃ n ∈ graphs.flatMap Graph.nodes, n.id = k.id ∧ p ∈ n.propertyNames
  context_eq_some_iff : ∀ c, m.context = some c ↔ ∃ before g after,
    graphs = before ++ g :: after ∧ g.context = some c ∧ ∀ b ∈ before, b.context = none

theorem id_eq_none_of_mem_anonymous {nodes : List (Node R)} {n : Node R}
    (hn : n ∈ nodes.filter Node.isAnonymous) : n.id = none := by
  rw [List.mem_filter, Node.isAnonymous] at hn
  exact Option.isNone_iff_eq_none.1 hn.2

variable [Scalar R] [NumberText R]

theorem MergedNode.Merges.mem_types_node {k : MergedNode R} {options : MergeOptions}
    {nodes : List (Node R)} (h : k.Merges options (membersOf nodes k.id)) {t : String} :
    t ∈ k.types ↔ ∃ n ∈ nodes, n.id = some k.id ∧ t ∈ n.types := by
  rw [h.types_eq, unionTypes, mem_sortedNames, List.mem_flatMap]
  simp only [mem_membersOf, and_assoc]

theorem MergedNode.Merges.mem_names_node {k : MergedNode R} {options : MergeOptions}
    {nodes : List (Node R)} (h : k.Merges options (membersOf nodes k.id)) {p : String} :
    p ∈ k.node.propertyNames ↔ ∃ n ∈ nodes, n.id = some k.id ∧ p ∈ n.propertyNames := by
  rw [h.propertyNames_node, mem_propertyNames]
  simp only [mem_membersOf, and_assoc]

theorem exists_merges_of_mem {graphs : List (Graph R)} {options : MergeOptions}
    {merged : List (MergedNode R)}
    (h : List.Forall₂ (fun b k => k.id = b.id ∧ k.Merges options b.members)
      (gather (graphs.flatMap Graph.nodes)).buckets merged) {n : Node R} (identified : n.id.isSome)
    (hn : n ∈ merged.map MergedNode.node ++ (gather (graphs.flatMap Graph.nodes)).anonymous) :
    ∃ k : MergedNode R, n = k.node ∧
      k.Merges options (membersOf (graphs.flatMap Graph.nodes) k.id) := by
  have covers := gather_covers (graphs.flatMap Graph.nodes)
  rcases List.mem_append.1 hn with hn | hn
  · rcases List.mem_map.1 hn with ⟨k, hk, rfl⟩
    rcases exists_mem_of_forall₂ h.flip hk with ⟨b, hb, same, merges⟩
    rw [covers.members_eq b hb, ← same] at merges
    exact ⟨k, rfl, merges⟩
  · rw [covers.anonymous_eq] at hn
    simp [id_eq_none_of_mem_anonymous hn] at identified

/-- Every successful merge has the outline that its sources determine. -/
theorem merge_outline {graphs : List (Graph R)} {options : MergeOptions} {m : Graph R}
    {report : MergeReport R} (h : Graph.merge graphs options = .ok (m, report)) :
    Outline graphs m := by
  rcases merge_eq_ok_iff.1 h with ⟨-, merged, hm, rfl, -⟩
  have covers := gather_covers (graphs.flatMap Graph.nodes)
  have ids : merged.map MergedNode.id =
      (gather (graphs.flatMap Graph.nodes)).buckets.map Bucket.id :=
    map_eq_map_of_forall₂ (hm.imp (fun _ _ hbk => hbk.1))
  constructor
  case nodes_eq =>
    have kept : (merged.map MergedNode.node).filter (fun k => k.id.isSome) =
        merged.map MergedNode.node := by
      rw [List.filter_eq_self]
      intro n hn
      rcases List.mem_map.1 hn with ⟨k, -, rfl⟩
      rfl
    have dropped : ((graphs.flatMap Graph.nodes).filter Node.isAnonymous).filter
        (fun k => k.id.isSome) = [] := by
      rw [List.filter_eq_nil_iff]
      intro n hn
      simp [id_eq_none_of_mem_anonymous hn]
    rw [covers.anonymous_eq, List.filter_append, kept, dropped, List.append_nil]
  case ids_listed =>
    have listed : (merged.map MergedNode.node ++
        (gather (graphs.flatMap Graph.nodes)).anonymous).filterMap Node.id =
        merged.map MergedNode.id := by
      have none :
          ((graphs.flatMap Graph.nodes).filter Node.isAnonymous).filterMap Node.id = [] := by
        rw [List.filterMap_eq_nil_iff]
        exact fun n hn => id_eq_none_of_mem_anonymous hn
      rw [covers.anonymous_eq, List.filterMap_append, none, List.append_nil, List.filterMap_map]
      change merged.filterMap (some ∘ MergedNode.id) = _
      rw [List.filterMap_eq_map]
    rw [listed, ids]
    exact covers.ids
  case types_increasing =>
    intro n hn identified
    rcases exists_merges_of_mem hm identified hn with ⟨k, rfl, merges⟩
    change k.types.Pairwise (· < ·)
    rw [merges.types_eq]
    exact sortedNames_increasing _
  case mem_types_iff =>
    intro n hn identified t
    rcases exists_merges_of_mem hm identified hn with ⟨k, rfl, merges⟩
    exact merges.mem_types_node
  case names_increasing =>
    intro n hn identified
    rcases exists_merges_of_mem hm identified hn with ⟨k, rfl, merges⟩
    rw [merges.propertyNames_node]
    exact sortedNames_increasing _
  case mem_names_iff =>
    intro n hn identified p
    rcases exists_merges_of_mem hm identified hn with ⟨k, rfl, merges⟩
    exact merges.mem_names_node
  case context_eq_some_iff =>
    intro c
    exact List.findSome?_eq_some_iff

def interleaved : List (Graph Float) :=
  [⟨none, [⟨some "b", ["T", "A"], none, [("p", .literal (.text "Ada"))]⟩,
      ⟨none, ["B"], none, []⟩, ⟨some "a", [], none, []⟩,
      ⟨some "b", ["T"], none, [("q", .literal (.boolean true))]⟩]⟩,
    ⟨some .null, [⟨some "a", ["B"], none, [("p", .literal (.text "Ada"))]⟩,
      ⟨none, ["B"], none, []⟩]⟩]

def interleavedMerge : Graph Float :=
  ⟨some .null,
    [⟨some "b", ["A", "T"], none,
        [("p", .literal (.text "Ada")), ("q", .literal (.boolean true))]⟩,
      ⟨some "a", ["B"], none, [("p", .literal (.text "Ada"))]⟩,
      ⟨none, ["B"], none, []⟩, ⟨none, ["B"], none, []⟩]⟩

theorem merge_outline_interleaved :
    Graph.merge interleaved default = .ok (interleavedMerge, ⟨2, 3, 0, 0, []⟩) ∧
      Outline interleaved interleavedMerge := by
  have run : Graph.merge interleaved default = .ok (interleavedMerge, ⟨2, 3, 0, 0, []⟩) :=
    rfl
  exact ⟨run, merge_outline run⟩

end Credence.Merge
