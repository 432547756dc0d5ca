import Credence.Proofs.Diff.Entries
import Credence.Proofs.Graph.Bare
import Credence.Proofs.Merge.Account
import Credence.Proofs.Merge.Provenance
import Credence.Proofs.Scalar.Tenths
import Credence.Scalar.Binary64

/-! # What a merge replaces, and whether its account says so

A merged graph lacks nothing that one of its sources states. What it states otherwise than a source
is in the account exactly where values that count as agreeing, because they all say the same as the
first, also say the same as the one that is kept. With exact numbers they always do. Numbers that
are compared as rounded scalars can agree with the first and differ from each other.
-/

namespace Credence.Merge
open PropertyValue
variable {R : Type}

theorem mem_membersOf_of_node? {graphs : List (Graph R)} {g : Graph R} (hg : g ∈ graphs)
    {id : String} {n : Node R} (hn : g.node? id = some n) :
    n ∈ membersOf (graphs.flatMap Graph.nodes) id := by
  have known : n.id = some id := by simpa using List.find?_some hn
  exact mem_membersOf.2 ⟨List.mem_flatMap.2 ⟨g, hg, List.mem_of_find?_eq_some hn⟩, known⟩

variable [Scalar R] [NumberText R]

/-- Where all values of a property say the same as the first, so does the one that is kept as each
of those that a source states for the first node with the identifier. -/
def KeptForAll (graphs : List (Graph R)) : Prop :=
  ∀ g ∈ graphs, ∀ id n p u, g.node? id = some n → p ≠ Keyword.type → n.get? p = some u →
    ∀ first rest, valuesOf (membersOf (graphs.flatMap Graph.nodes) id) p = first :: rest →
      (∀ v ∈ rest, v.agrees first = true) → u.agrees (leader outranks first rest) = true

section Merged
variable {graphs : List (Graph R)} {options : MergeOptions} {m : Graph R}
  {report : MergeReport R} {g : Graph R} {id p : String} {n : Node R} {u : PropertyValue R}

/-- A node of a source is in the merged graph with all that it states. -/
theorem exists_facts (h : Graph.merge graphs options = .ok (m, report)) (hg : g ∈ graphs)
    (hn : g.node? id = some n) (hu : n.facts.get? p = some u) :
    ∃ k w, m.node? id = some k ∧ k.facts.get? p = some w := by
  have member := mem_membersOf_of_node? hg hn
  have present := membersOf_ne_nil_iff.1 (List.ne_nil_of_mem member)
  rcases exists_mergedNode h present with ⟨k, -, merges, found⟩
  by_cases isType : p = Keyword.type
  · subst isType
    rw [Node.get?_facts_type] at hu
    have typed : n.types ≠ [] := by
      rw [ne_eq, ← Node.typesValue?_eq_none_iff, hu]
      exact Option.some_ne_none u
    rcases List.exists_mem_of_ne_nil _ typed with ⟨t, ht⟩
    have kept : t ∈ k.types := by
      rw [merges.types_eq, unionTypes, mem_sortedNames]
      exact List.mem_flatMap.2 ⟨n, member, ht⟩
    have stated : k.node.typesValue? ≠ none := by
      rw [ne_eq, Node.typesValue?_eq_none_iff]
      exact List.ne_nil_of_mem kept
    rcases Option.ne_none_iff_exists'.1 stated with ⟨w, hw⟩
    exact ⟨k.node, w, found, (k.node.get?_facts_type).trans hw⟩
  · rw [Node.get?_facts_of_ne n isType] at hu
    have named : p ∈ propertyNames (membersOf (graphs.flatMap Graph.nodes) id) :=
      mem_propertyNames.2 ⟨n, member, Fields.isSome_get?_iff.1 (Option.isSome_of_eq_some hu)⟩
    rcases merges.get?_node named with ⟨o, -, held⟩
    exact ⟨k.node, o.value, found, (Node.get?_facts_of_ne _ isType).trans held⟩

theorem removed_eq_nil (h : Graph.merge graphs options = .ok (m, report)) (hg : g ∈ graphs) :
    (g.diff m).removed = [] := by
  rw [List.eq_nil_iff_forall_not_mem]
  intro e he
  rcases Graph.mem_removed_iff.1 he with ⟨old, hold, ⟨absent, -, -⟩ | ⟨new, p, hnew, -, hv, none⟩⟩
  · have present := membersOf_ne_nil_iff.1 (List.ne_nil_of_mem (mem_membersOf_of_node? hg hold))
    rcases exists_mergedNode h present with ⟨k, -, -, found⟩
    rw [found] at absent
    cases absent
  · rcases exists_facts h hg hold hv with ⟨k, w, hk, hw⟩
    rw [hnew] at hk
    cases hk
    rw [none] at hw
    cases hw

theorem exists_kept (h : Graph.merge graphs options = .ok (m, report))
    {first : PropertyValue R} {rest : List (PropertyValue R)}
    (values : valuesOf (membersOf (graphs.flatMap Graph.nodes) id) p = first :: rest)
    (same : ∀ v ∈ rest, v.agrees first = true) :
    ∃ k w, m.node? id = some k ∧ k.get? p = some w ∧
      w.bare = (leader outranks first rest).bare := by
  rcases exists_becomes h values with ⟨k, o, hk, ho, reconciled⟩
  rcases (reconcile_eq_ok_of_agree same).1 reconciled with ⟨w, hw, rfl⟩
  exact ⟨k, w, hk, ho, (restated_leader hw).bare_eq⟩

end Merged

/-- Exact numbers that say the same as the first say the same as each other. -/
theorem keptForAll {K : Type} [Field K] [LinearOrder K] [IsStrictOrderedRing K] [NumberText K]
    (graphs : List (Graph K)) : KeptForAll graphs := by
  intro g hg id n p u hn notType hu first rest values same
  have as_first : ∀ v ∈ first :: rest, v.agrees first = true := by
    intro v hv
    rcases List.mem_cons.1 hv with rfl | behind
    · exact v.agrees_refl
    · exact same v behind
  have given : u ∈ first :: rest :=
    values ▸ mem_valuesOf.2 ⟨n, mem_membersOf_of_node? hg hn, hu⟩
  have led : first.agrees (leader outranks first rest) = true := by
    rw [agrees_comm]
    exact as_first _ (leader_mem outranks first rest)
  exact agrees_trans (as_first u given) led

/-- Compared with any of its sources a merged graph lacks nothing, and its account has a record of
every property that it states otherwise exactly where what is kept by agreement is kept for all. -/
theorem merge_audit_complete_iff {graphs : List (Graph R)} {options : MergeOptions} {m : Graph R}
    {report : MergeReport R} (h : Graph.merge graphs options = .ok (m, report)) :
    (∀ g ∈ graphs, (g.diff m).removed = []) ∧
      ((∀ g ∈ graphs, ∀ e ∈ (g.diff m).modified, e.property ≠ Keyword.type →
          ∃ c ∈ report.conflicts, c.nodeId = e.nodeId ∧ c.property = e.property) ↔
        KeptForAll graphs) := by
  refine ⟨fun g hg => removed_eq_nil h hg, ?_⟩
  rcases exists_assembled h with ⟨merged, assembled⟩
  constructor
  · intro complete g hg id n p u hn notType hu first rest values same
    rcases exists_kept h values same with ⟨k, w, hk, hw, stated⟩
    by_contra differ
    have replaced : (⟨id, p, u, w⟩ : ModifiedEntry R) ∈ (g.diff m).modified := by
      refine Graph.mem_modified_iff.2 ⟨n, k, hn, hk, ?_, ?_, ?_⟩
      · exact (n.get?_facts_of_ne notType).trans hu
      · exact (k.get?_facts_of_ne notType).trans hw
      · change u.bare.same w.bare = false
        rw [stated]
        exact Bool.eq_false_iff.2 differ
    rcases complete g hg _ replaced notType with ⟨c, hc, rfl, rfl⟩
    rcases assembled.record_of_mem_conflicts hc with ⟨contested, record, -⟩
    rw [record, values, contested_cons_iff] at contested
    exact contested same
  · intro kept g hg e he notType
    rcases Graph.mem_modified_iff.1 he with ⟨n, k, hn, hk, hu, hw, differ⟩
    rw [Node.get?_facts_of_ne _ notType] at hu hw
    have given : e.old ∈ valuesOf (membersOf (graphs.flatMap Graph.nodes) e.nodeId) e.property :=
      mem_valuesOf.2 ⟨n, mem_membersOf_of_node? hg hn, hu⟩
    rcases List.exists_cons_of_ne_nil (List.ne_nil_of_mem given) with ⟨first, rest, values⟩
    by_cases same : ∀ v ∈ rest, v.agrees first = true
    · rcases exists_kept h values same with ⟨k', w, hk', hw', stated⟩
      rw [hk] at hk'
      cases hk'
      rw [hw] at hw'
      cases hw'
      have agrees := kept g hg e.nodeId n e.property e.old hn notType hu first rest values same
      have differ : e.old.bare.same e.new.bare = false := differ
      rw [stated] at differ
      exact absurd agrees (Bool.eq_false_iff.1 differ)
    · rcases assembled.exists_conflict (values ▸ contested_cons_iff.2 same) with
        ⟨c, hc, same_node, same_property, -⟩
      exact ⟨c, hc, same_node, same_property⟩

def spellings {R : Type} (start : Int) (number : R) (confidence : R) : List (Graph R) :=
  let source (v : PropertyValue R) : Graph R := .single ⟨some "x", [], none, [("p", v)]⟩
  [source (.literal (.number (.scalar number))), source (.literal (.number (.whole start))),
    source (.annotated ⟨.number (.whole (start + 1)), some confidence, none, none, none, []⟩)]

theorem merge_audit_complete_exact :
    ∃ m report, Graph.merge (spellings 2 (2 : ℚ) (9 / 10)) default = .ok (m, report) ∧
      ∀ g ∈ spellings 2 (2 : ℚ) (9 / 10), (g.diff m).removed = [] ∧
        ∀ e ∈ (g.diff m).modified, e.property ≠ Keyword.type →
          ∃ c ∈ report.conflicts, c.nodeId = e.nodeId ∧ c.property = e.property := by
  obtain ⟨⟨m, report⟩, run⟩ := exists_eq_ok_of_isOk
    (show (Graph.merge (spellings 2 (2 : ℚ) (9 / 10)) default).isOk = true by decide +kernel)
  obtain ⟨nothing_lost, complete⟩ := merge_audit_complete_iff run
  exact ⟨m, report, run, fun g hg => ⟨nothing_lost g hg, complete.2 (keptForAll _) g hg⟩⟩

/-- The first number above two to the power 53 that double precision has no scalar for. -/
def roundedAway : PropertyValue Float :=
  .annotated ⟨.number (.whole 9007199254740993), some 0.9, none, none, none, []⟩

/-- A number is replaced by the next one and no record says so: rounded to double precision both
are the number that the first source states as a scalar. -/
theorem merge_audit_misses_rounded :
    ∃ m report, Graph.merge (spellings 9007199254740992 9007199254740992.0 (0.9 : Float)) default =
        .ok (m, report) ∧
      ∃ g ∈ spellings 9007199254740992 9007199254740992.0 (0.9 : Float),
        ∃ e ∈ (g.diff m).modified, e.property ≠ Keyword.type ∧
          ¬ ∃ c ∈ report.conflicts, c.nodeId = e.nodeId ∧ c.property = e.property := by
  have run : Graph.merge (spellings 9007199254740992 9007199254740992.0 (0.9 : Float)) default =
      .ok (.single ⟨some "x", [], none, [("p", roundedAway)]⟩, ⟨3, 1, 0, 0, []⟩) := rfl
  refine ⟨_, _, run, _, List.mem_cons_of_mem _ List.mem_cons_self,
    ⟨"x", "p", .literal (.number (.whole 9007199254740992)), roundedAway⟩, ?_, by decide, ?_⟩
  · exact Graph.mem_modified_iff.2 ⟨_, _, rfl, rfl, rfl, rfl, by decide +kernel⟩
  · rintro ⟨c, hc, -⟩
    cases hc

end Credence.Merge
