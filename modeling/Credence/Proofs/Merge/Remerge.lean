import Credence.Proofs.Diff.Account
import Credence.Proofs.Diff.Empty
import Credence.Proofs.Merge.Audit
import Credence.Proofs.Merge.Closure
import Credence.Proofs.Score.Binary64

/-! # Copies of one graph merged

A graph whose identifiers are told apart can be merged with copies of itself. The copies agree on
everything, so that the account has no conflict, and the merged graph says what the graph says:
compared with it every property is unchanged. Types may be sorted, literals become assertions and
confidences be combined on the way.
-/

namespace Credence.Merge
open PropertyValue
variable {R : Type}

/-- No two nodes have one identifier. -/
def IdsApart (g : Graph R) : Prop := (g.nodes.filterMap Node.id).Nodup

theorem membersOf_eq_singleton {nodes : List (Node R)} (apart : (nodes.filterMap Node.id).Nodup)
    {x : Node R} (hx : x ∈ nodes) {id : String} (known : x.id = some id) :
    membersOf nodes id = [x] := by
  induction nodes with
  | nil => cases hx
  | cons y rest ih =>
    change membersOf ([y] ++ rest) id = [x]
    rw [membersOf_append]
    rcases List.mem_cons.1 hx with rfl | behind
    · rw [List.filterMap_cons_some known, List.nodup_cons] at apart
      have none : membersOf rest id = [] := by
        rw [List.eq_nil_iff_forall_not_mem]
        intro z hz
        rcases mem_membersOf.1 hz with ⟨hz, same⟩
        exact apart.1 (List.mem_filterMap.2 ⟨z, hz, same⟩)
      rw [none]
      simp [membersOf, known]
    · have other : y.id ≠ some id := by
        intro same
        rw [List.filterMap_cons_some same, List.nodup_cons] at apart
        exact apart.1 (List.mem_filterMap.2 ⟨x, behind, known⟩)
      have apart : (rest.filterMap Node.id).Nodup :=
        apart.sublist ((List.sublist_cons_self y rest).filterMap _)
      rw [ih apart behind]
      simp [membersOf, other]

/-- The nodes with an identifier among the copies of a graph are copies of one node. -/
theorem membersOf_copies {g : Graph R} (apart : IdsApart g) {x : Node R} (hx : x ∈ g.nodes)
    {id : String} (known : x.id = some id) (n : Nat) :
    membersOf ((List.replicate n g).flatMap Graph.nodes) id = List.replicate n x := by
  induction n with
  | zero => rfl
  | succ n ih =>
    rw [List.replicate_succ, List.flatMap_cons, membersOf_append, ih,
      membersOf_eq_singleton apart hx known]
    rfl

theorem id_mem_copies_iff {g : Graph R} {n : Nat} (copied : n ≠ 0) {id : Option String} :
    id ∈ ((List.replicate n g).flatMap Graph.nodes).map Node.id ↔ ∃ x ∈ g.nodes, x.id = id := by
  simp [List.mem_flatMap, copied]

theorem mem_propertyNames_copies {x : Node R} {n : Nat} (copied : n ≠ 0) {p : String} :
    p ∈ propertyNames (List.replicate n x) ↔ p ∈ x.propertyNames := by
  simp [mem_propertyNames, copied]

theorem node?_of_mem {g : Graph R} (apart : IdsApart g) {x : Node R} (hx : x ∈ g.nodes)
    {id : String} (known : x.id = some id) : g.node? id = some x := by
  rcases Graph.exists_node?_iff.2 ⟨x, hx, known⟩ with ⟨y, found⟩
  rcases Graph.mem_of_node? found with ⟨hy, known'⟩
  have single := membersOf_eq_singleton apart hx known
  have member : y ∈ membersOf g.nodes id := mem_membersOf.2 ⟨hy, known'⟩
  rw [single, List.mem_singleton] at member
  rw [found, member]

variable [Scalar R]

theorem definite_of_get? {x : Node R} (h : (PropertyValue.node x).Definite) {p : String}
    {v : PropertyValue R} (hv : x.get? p = some v) : v.Definite := by
  cases h with
  | node values => exact values (p, v) (Fields.mem_of_get?_eq_some hv)

theorem definite_of_restated {v w : PropertyValue R} (h : Restated v w) (definite : v.Definite) :
    w.Definite := by
  cases h with
  | verbatim => exact definite
  | assertion a c =>
    cases definite with
    | annotated definite => exact .annotated definite
  | literal l c =>
    cases definite with
    | literal definite => exact .annotated definite
  | node n c =>
    cases definite with
    | node values => exact .node values

/-- The values that copies of a node give to a property are copies of one value, which says the
same as itself. -/
theorem copies_of_valuesOf {x : Node R} (definite : (PropertyValue.node x).Definite) {n : Nat}
    {p : String} {first : PropertyValue R} {rest : List (PropertyValue R)}
    (values : valuesOf (List.replicate n x) p = first :: rest) :
    x.get? p = some first ∧ (∀ v ∈ rest, v = first) ∧ first.agrees first = true := by
  have held (v : PropertyValue R) (hv : v ∈ first :: rest) : x.get? p = some v := by
    rw [← values] at hv
    rcases mem_valuesOf.1 hv with ⟨y, hy, found⟩
    rwa [List.eq_of_mem_replicate hy] at found
  have here := held first List.mem_cons_self
  refine ⟨here, fun v hv => ?_, agrees_self (definite_of_get? definite here)⟩
  exact Option.some.inj ((held v (List.mem_cons_of_mem first hv)).symm.trans here)

theorem not_contested_copies {x : Node R} (definite : (PropertyValue.node x).Definite) (n : Nat)
    (p : String) : ¬ Contested (valuesOf (List.replicate n x) p) := by
  rintro ⟨first, rest, values, differ⟩
  obtain ⟨-, copies, itself⟩ := copies_of_valuesOf definite values
  exact differ (fun v hv => (copies v hv).symm ▸ itself)

variable [NumberText R]

theorem idsApart_merge {graphs : List (Graph R)} {options : MergeOptions} {m : Graph R}
    {report : MergeReport R} (h : Graph.merge graphs options = .ok (m, report)) : IdsApart m := by
  rcases exists_assembled h with ⟨merged, assembled⟩
  have identified : (merged.map MergedNode.node).filterMap Node.id = merged.map MergedNode.id := by
    rw [List.filterMap_map, ← List.filterMap_eq_map]
    rfl
  have anonymous :
      ((graphs.flatMap Graph.nodes).filter Node.isAnonymous).filterMap Node.id = [] := by
    simp [Node.isAnonymous]
  rw [IdsApart, assembled.nodes_eq, List.filterMap_append, identified, anonymous, List.append_nil]
  exact assembled.ids.nodup

theorem definite_of_reconcile {options : MergeOptions} {id p : String} {first : PropertyValue R}
    {rest : List (PropertyValue R)} {o : Outcome R}
    (h : reconcile options id p first rest = .ok o)
    (definite : ∀ v ∈ first :: rest, v.Definite) : o.value.Definite := by
  by_cases same : ∀ v ∈ rest, v.agrees first = true
  · rcases (reconcile_eq_ok_of_agree same).1 h with ⟨w, kept, rfl⟩
    exact definite_of_restated (restated_leader kept) (definite _ (leader_mem outranks first rest))
  · rcases (reconcile_eq_ok_of_not_agree same).1 h with ⟨c, settled, rfl⟩
    cases strategy : options.strategy with
    | union =>
      rw [strategy] at settled
      cases settled
      exact .list definite
    | contest s =>
      rw [strategy] at settled
      rcases settle_contest settled with ⟨r, v, -, found, restated⟩
      exact definite_of_restated restated (definite v (List.mem_of_getElem? found))

theorem definite_merge {graphs : List (Graph R)} {options : MergeOptions} {m : Graph R}
    {report : MergeReport R} (h : Graph.merge graphs options = .ok (m, report))
    (definite : ∀ g ∈ graphs, g.Definite) : m.Definite := by
  have source (n : Node R) (hn : n ∈ graphs.flatMap Graph.nodes) :
      (PropertyValue.node n).Definite := by
    rcases List.mem_flatMap.1 hn with ⟨g, hg, hn⟩
    exact definite g hg n hn
  rcases exists_assembled h with ⟨merged, assembled⟩
  intro n hn
  rw [assembled.nodes_eq] at hn
  rcases List.mem_append.1 hn with hn | hn
  · rcases List.mem_map.1 hn with ⟨k, hk, rfl⟩
    refine .node (List.forall_mem_map.2 (fun o ho => ?_))
    rcases (assembled.merges k hk).becomes_of_mem ho with ⟨first, rest, values, reconciled⟩
    refine definite_of_reconcile reconciled (fun v hv => ?_)
    rw [← values] at hv
    rcases mem_valuesOf.1 hv with ⟨x, hx, found⟩
    exact definite_of_get? (source x (mem_membersOf.1 hx).1) found
  · exact source n (List.mem_filter.1 hn).1

section Copies
variable {g : Graph R} {n : Nat} {options : MergeOptions} {m : Graph R} {report : MergeReport R}

theorem conflicts_of_copies (apart : IdsApart g) (definite : g.Definite) (copied : n ≠ 0)
    (h : Graph.merge (List.replicate n g) options = .ok (m, report)) : report.conflicts = [] := by
  rcases exists_assembled h with ⟨merged, assembled⟩
  rw [List.eq_nil_iff_forall_not_mem]
  intro c hc
  obtain ⟨contested, values, -⟩ := assembled.record_of_mem_conflicts hc
  rw [values] at contested
  obtain ⟨-, present⟩ := named_of_valuesOf_ne_nil contested.ne_nil
  rcases (id_mem_copies_iff copied).1 present with ⟨x, hx, known⟩
  rw [membersOf_copies apart hx known] at contested
  exact not_contested_copies (definite x hx) n c.property contested

theorem mem_types_copies {x : Node R} (copied : n ≠ 0) {k : MergedNode R}
    (merges : k.Merges options (List.replicate n x)) {t : String} :
    t ∈ k.types ↔ t ∈ x.types := by
  rw [merges.types_eq, unionTypes, mem_sortedNames]
  simp [copied]

/-- A value of which all others are copies is kept, at most with another confidence. -/
theorem agrees_of_becomes_copies {x : Node R} (definite : (PropertyValue.node x).Definite)
    {id p : String} {v : PropertyValue R} (held : x.get? p = some v) {o : Outcome R}
    (h : Becomes options id (List.replicate n x) p o) : v.agrees o.value = true := by
  rcases h with ⟨first, rest, values, reconciled⟩
  obtain ⟨here, copies, itself⟩ := copies_of_valuesOf definite values
  obtain rfl : v = first := Option.some.inj (held.symm.trans here)
  have agreeing : ∀ w ∈ rest, w.agrees v = true := fun w hw => (copies w hw).symm ▸ itself
  rcases (reconcile_eq_ok_of_agree agreeing).1 reconciled with ⟨w, kept, rfl⟩
  have lead : leader outranks v rest = v := by
    rcases List.mem_cons.1 (leader_mem outranks v rest) with same | behind
    · exact same
    · exact copies _ behind
  have said : w.bare = v.bare := by rw [(restated_leader kept).bare_eq, lead]
  rw [agrees, Outcome.value, said]
  exact itself

/-- What copies of a node are merged to states the same as the node. -/
theorem statesSame_of_copies {x : Node R} (definite : (PropertyValue.node x).Definite)
    (copied : n ≠ 0) {k : MergedNode R} (merges : k.Merges options (List.replicate n x)) :
    x.StatesSame k.node := by
  intro p
  by_cases isType : p = Keyword.type
  · rw [isType, x.get?_facts_type, k.node.get?_facts_type, Node.rel_typesValue?_iff,
      sortedNames_eq_iff]
    exact fun t => (mem_types_copies copied merges).symm
  · rw [x.get?_facts_of_ne isType, k.node.get?_facts_of_ne isType]
    cases held : x.get? p with
    | none =>
      have absent : p ∉ k.node.propertyNames := by
        rw [merges.propertyNames_node, mem_propertyNames_copies copied]
        exact Fields.get?_eq_none_iff.1 held
      have nothing : k.node.get? p = none := Fields.get?_eq_none_iff.2 absent
      rw [nothing]
      exact .none
    | some v =>
      have named : p ∈ propertyNames (List.replicate n x) := by
        rw [mem_propertyNames_copies copied]
        exact Fields.isSome_get?_iff.1 (Option.isSome_of_eq_some held)
      rcases merges.get?_node named with ⟨o, becomes, found⟩
      rw [found]
      exact .some (agrees_of_becomes_copies definite held becomes)

section Run
variable (apart : IdsApart g) (definite : g.Definite) (copied : n ≠ 0)
  (h : Graph.merge (List.replicate n g) options = .ok (m, report))
include apart definite copied h

/-- Where copies of a graph are merged every node is found again, and states the same. -/
theorem exists_statesSame {id : String} {x : Node R} (found : g.node? id = some x) :
    ∃ y, m.node? id = some y ∧ x.StatesSame y := by
  rcases Graph.mem_of_node? found with ⟨hx, known⟩
  rcases exists_mergedNode h ((id_mem_copies_iff copied).2 ⟨x, hx, known⟩) with
    ⟨k, -, merges, found'⟩
  rw [membersOf_copies apart hx known] at merges
  exact ⟨k.node, found', statesSame_of_copies (definite x hx) copied merges⟩

theorem isEmpty_diff_copies : (g.diff m).isEmpty = true := by
  rw [Graph.isEmpty_diff_iff]
  constructor
  case left =>
    intro id
    cases found : g.node? id with
    | none =>
      have absent : some id ∉ ((List.replicate n g).flatMap Graph.nodes).map Node.id := by
        rw [id_mem_copies_iff copied, ← Graph.exists_node?_iff, found]
        rintro ⟨x, ⟨⟩⟩
      rw [node?_eq_none h absent]
    | some x =>
      rcases exists_statesSame apart definite copied h found with ⟨y, found', -⟩
      rw [found']
      rfl
  case right =>
    intro id x y found found'
    rcases exists_statesSame apart definite copied h found with ⟨z, again, states⟩
    obtain rfl : z = y := Option.some.inj (again.symm.trans found')
    exact states

theorem unchanged_copies (namesApart : g.NamesApart) (id : String) (property : Option String) :
    (id, property) ∈ (g.diff m).unchanged.map (fun e => (e.nodeId, e.property)) ↔
      ∃ x ∈ g.nodes, x.id = some id ∧ ∃ p, property = some p ∧
        (p ∈ x.propertyNames ∨ p = Keyword.type ∧ x.types ≠ []) := by
  rw [List.mem_map]
  constructor
  · rintro ⟨e, he, place⟩
    obtain ⟨rfl, rfl⟩ := Prod.mk.inj place
    rcases Graph.mem_unchanged_iff.1 he with ⟨x, y, p, v, found, -, hp, hv, -, -⟩
    rcases Graph.mem_of_node? found with ⟨hx, known⟩
    refine ⟨x, hx, known, p, hp, (namesApart x hx).mem_names_facts.1 ?_⟩
    exact Fields.isSome_get?_iff.1 (Option.isSome_of_eq_some hv)
  · rintro ⟨x, hx, known, p, rfl, stated⟩
    have found := node?_of_mem apart hx known
    rcases exists_statesSame apart definite copied h found with ⟨y, found', states⟩
    have stated := Fields.isSome_get?_iff.2 ((namesApart x hx).mem_names_facts.2 stated)
    rcases Option.isSome_iff_exists.1 stated with ⟨v, hv⟩
    have same := states p
    rw [hv] at same
    cases hw : y.facts.get? p with
    | none =>
      rw [hw] at same
      cases same
    | some w =>
      rw [hw] at same
      cases same with
      | some agreed =>
        exact ⟨⟨id, some p, w⟩, Graph.mem_unchanged_iff.2
          ⟨x, y, p, v, found, found', rfl, hv, hw, agreed⟩, rfl⟩

end Run
end Copies

/-- A graph whose identifiers are told apart, read from a document or merged from graphs that are,
can be merged with copies of itself under any options. Nothing is in conflict and nothing differs
from the graph: every property of an identified node, and its types if it has any, is listed once
as unchanged. -/
theorem remerge_adds_nothing (scores : ScoresCombine R) {g : Graph R}
    (source : (g.Decoded ∧ g.Definite) ∧ IdsApart g ∨ ∃ graphs options report,
      (∀ s ∈ graphs, s.Decoded ∧ s.Definite) ∧ Graph.merge graphs options = .ok (g, report))
    {n : Nat} (enough : 2 ≤ n) (options : MergeOptions) :
    ∃ m report, Graph.merge (List.replicate n g) options = .ok (m, report) ∧
      report.conflicts = [] ∧ (g.diff m).isEmpty = true ∧
      ((g.diff m).unchanged.map (fun e => (e.nodeId, e.property))).Nodup ∧
      ∀ id property, (id, property) ∈ (g.diff m).unchanged.map (fun e => (e.nodeId, e.property)) ↔
        ∃ x ∈ g.nodes, x.id = some id ∧ ∃ p, property = some p ∧
          (p ∈ x.propertyNames ∨ p = Keyword.type ∧ x.types ≠ []) := by
  obtain ⟨formed, definite, apart⟩ : g.WellFormed ∧ g.Definite ∧ IdsApart g := by
    rcases source with ⟨⟨decoded, definite⟩, apart⟩ | ⟨graphs, options', report', read, made⟩
    · exact ⟨decoded.wellFormed, definite, apart⟩
    · exact ⟨wellFormed_merge scores (fun s hs => (read s hs).1.wellFormed) made,
        definite_merge made (fun s hs => (read s hs).2), idsApart_merge made⟩
  have copied : n ≠ 0 := by omega
  have several : 2 ≤ (List.replicate n g).length := by rwa [List.length_replicate]
  rcases exists_merge_of_wellFormed scores options several
    (fun s hs => List.eq_of_mem_replicate hs ▸ formed) with ⟨m, report, run⟩
  exact ⟨m, report, run, conflicts_of_copies apart definite copied run,
    isEmpty_diff_copies apart definite copied run, Graph.nodup_unchanged_places g m,
    unchanged_copies apart definite copied run formed.namesApart⟩

theorem definite_earlier : Graph.earlier.Definite := by
  have whole : (literal (.number (.whole 1)) : PropertyValue Float).Definite := .literal nofun
  have word : (ofText "a" : PropertyValue Float).Definite := .literal nofun
  simp only [Graph.Definite, Graph.earlier, Graph.ofNodes, List.forall_mem_cons]
  exact ⟨.node (List.forall_mem_cons.2 ⟨whole, List.forall_mem_singleton.2 word⟩),
    .node (List.forall_mem_nil _), .node (List.forall_mem_nil _), List.forall_mem_nil _⟩

theorem definite_later : Graph.later.Definite := by
  have one : (literal (.number (.scalar 1.0)) : PropertyValue Float).Definite := by
    refine .literal (Binary64.definite_of_isFinite ?_)
    rintro x ⟨⟩
    decide +kernel
  have truth : (literal (.boolean true) : PropertyValue Float).Definite := .literal nofun
  simp only [Graph.Definite, Graph.later, Graph.ofNodes, List.forall_mem_cons]
  exact ⟨.node (List.forall_mem_cons.2 ⟨one, List.forall_mem_singleton.2 truth⟩),
    .node (List.forall_mem_nil _), List.forall_mem_nil _⟩

theorem remerge_adds_nothing_snapshots :
    let options : MergeOptions := ⟨.contest .recency, .dempsterShafer⟩
    (∃ m report, Graph.merge (List.replicate 3 Graph.later) options = .ok (m, report) ∧
      report.conflicts = [] ∧ (Graph.later.diff m).isEmpty = true) ∧
    ∃ g account m report,
      Graph.merge [Graph.earlier, Graph.later] ⟨.union, .noisyOr⟩ = .ok (g, account) ∧
        Graph.merge (List.replicate 2 g) options = .ok (m, report) ∧
          report.conflicts = [] ∧ (g.diff m).isEmpty = true := by
  have scores := Binary64.scoresCombine
  have read : ∀ s ∈ [Graph.earlier, Graph.later], s.Decoded ∧ s.Definite :=
    List.forall_mem_cons.2 ⟨⟨Graph.decoded_earlier, definite_earlier⟩,
      List.forall_mem_singleton.2 ⟨Graph.decoded_later, definite_later⟩⟩
  intro options
  constructor
  · have apart : IdsApart Graph.later := show ["x", "z"].Nodup by decide
    obtain ⟨m, report, run, agreed, empty, -⟩ := remerge_adds_nothing scores
      (.inl ⟨⟨Graph.decoded_later, definite_later⟩, apart⟩) (show 2 ≤ 3 by decide) options
    exact ⟨m, report, run, agreed, empty⟩
  · have several : 2 ≤ [Graph.earlier, Graph.later].length := Nat.le_refl 2
    rcases exists_merge_of_wellFormed scores ⟨.union, .noisyOr⟩ several
      (fun s hs => (read s hs).1.wellFormed) with ⟨g, account, made⟩
    obtain ⟨m, report, run, agreed, empty, -⟩ := remerge_adds_nothing scores
      (.inr ⟨_, _, account, read, made⟩) (Nat.le_refl 2) options
    exact ⟨g, account, m, report, made, run, agreed, empty⟩

end Credence.Merge
