import Credence.Proofs.Merge.Agreement
import Credence.Scalar.Binary64

/-! # The account of a merge

The account counts every property of every merged node once, as agreed or as contested. It has one
record for every property whose values do not all say the same as the first, in the order of the
merged nodes and of the names of their properties. A record holds the values that the sources give
and the value that the merged graph holds. Each step from one property to the next keeps the
counters in line with the records, and so they are in the end.
-/

namespace Credence.Merge
variable {R : Type} [Scalar R]

/-- Some values of which one does not say the same as the first. -/
def Contested (values : List (PropertyValue R)) : Prop :=
  ∃ first rest, values = first :: rest ∧ ¬ ∀ v ∈ rest, v.agrees first = true

theorem contested_cons_iff {first : PropertyValue R} {rest : List (PropertyValue R)} :
    Contested (first :: rest) ↔ ¬ ∀ v ∈ rest, v.agrees first = true := by
  constructor
  · rintro ⟨first', rest', same, differ⟩
    cases same
    exact differ
  · exact fun differ => ⟨first, rest, rfl, differ⟩

theorem Contested.two_le_length {values : List (PropertyValue R)} (h : Contested values) :
    2 ≤ values.length := by
  rcases h with ⟨first, rest, rfl, differ⟩
  cases rest with
  | nil => exact absurd (by simp) differ
  | cons second rest => simp

theorem Contested.ne_nil {values : List (PropertyValue R)} (h : Contested values) :
    values ≠ [] := by
  rcases h with ⟨first, rest, rfl, -⟩
  exact List.cons_ne_nil first rest

section
variable {R : Type}

def Outcome.conflict? : Outcome R → Option (Conflict R)
  | .agreed _ => none
  | .contested c => some c

def Outcome.isAgreed : Outcome R → Bool
  | .agreed _ => true
  | .contested _ => false

def MergedNode.conflicts (m : MergedNode R) : List (Conflict R) :=
  m.outcomes.filterMap (fun o => o.2.conflict?)

/-- Every outcome is counted as agreed or has a record. -/
theorem countP_isAgreed_add_length (os : List (String × Outcome R)) :
    os.countP (fun o => o.2.isAgreed) + (os.filterMap (fun o => o.2.conflict?)).length =
      os.length := by
  induction os with
  | nil => rfl
  | cons o os ih =>
    rcases o with ⟨p, value | conflict⟩
    · rw [List.countP_cons_of_pos rfl, List.filterMap_cons_none rfl, List.length_cons]
      omega
    · have kept : ((p, Outcome.contested conflict) :: os).filterMap (fun o => o.2.conflict?) =
          conflict :: os.filterMap (fun o => o.2.conflict?) := rfl
      rw [List.countP_cons_of_neg (by simp [Outcome.isAgreed]), kept, List.length_cons,
        List.length_cons]
      omega

/-- The two counters of contested properties go with the records, one by one. -/
structure Balanced (r : MergeReport R) : Prop where
  length_conflicts : r.conflicts.length = r.propertiesConflicted + r.propertiesUnioned
  unioned_eq : r.propertiesUnioned = r.conflicts.countP (fun c => c.strategy = .union)

theorem Balanced.record {r : MergeReport R} (h : Balanced r) (c : Conflict R) :
    Balanced (r.record c) := by
  obtain ⟨length_conflicts, unioned_eq⟩ := h
  unfold MergeReport.record
  cases strategy : c.strategy with
  | contest s =>
    constructor
    case length_conflicts =>
      dsimp only
      rw [List.length_append, length_conflicts, List.length_singleton]
      omega
    case unioned_eq => simp [unioned_eq, strategy]
  | union =>
    constructor
    case length_conflicts =>
      dsimp only
      rw [List.length_append, length_conflicts, List.length_singleton, Nat.add_assoc]
    case unioned_eq => simp [unioned_eq, strategy]

theorem Balanced.conflicted_eq_zero {r : MergeReport R} (h : Balanced r)
    (union : ∀ c ∈ r.conflicts, c.strategy = .union) : r.propertiesConflicted = 0 := by
  have every : r.conflicts.countP (fun c => c.strategy = .union) = r.conflicts.length :=
    List.countP_eq_length.2 (fun c hc => decide_eq_true (union c hc))
  have length_conflicts := h.length_conflicts
  rw [h.unioned_eq, every] at length_conflicts
  omega

theorem Balanced.unioned_eq_zero {r : MergeReport R} (h : Balanced r)
    (contest : ∀ c ∈ r.conflicts, c.strategy ≠ .union) : r.propertiesUnioned = 0 := by
  rw [h.unioned_eq, List.countP_eq_zero]
  exact fun c hc union => contest c hc (of_decide_eq_true union)

/-- How an account stands after some outcomes. -/
structure Tallies (sourceCount : Nat) (os : List (String × Outcome R)) (r : MergeReport R) :
    Prop where
  sourceCount_eq : r.sourceCount = sourceCount
  agreed_eq : r.propertiesAgreed = os.countP (fun o => o.2.isAgreed)
  conflicts_eq : r.conflicts = os.filterMap (fun o => o.2.conflict?)
  balanced : Balanced r

theorem Tallies.account {sourceCount : Nat} {os : List (String × Outcome R)} {r : MergeReport R}
    (h : Tallies sourceCount os r) (o : String × Outcome R) :
    Tallies sourceCount (os ++ [o]) (o.2.account r) := by
  obtain ⟨sourceCount_eq, agreed_eq, conflicts_eq, balanced⟩ := h
  rcases o with ⟨p, value | c⟩
  · constructor
    case sourceCount_eq => exact sourceCount_eq
    case agreed_eq => simp [Outcome.account, MergeReport.countAgreed, Outcome.isAgreed, agreed_eq]
    case conflicts_eq =>
      simp [Outcome.account, MergeReport.countAgreed, Outcome.conflict?, conflicts_eq]
    case balanced => exact ⟨balanced.length_conflicts, balanced.unioned_eq⟩
  · constructor
    case sourceCount_eq => rw [Outcome.account, MergeReport.sourceCount_record, sourceCount_eq]
    case agreed_eq => simp [Outcome.account, Outcome.isAgreed, agreed_eq]
    case conflicts_eq => simp [Outcome.account, Outcome.conflict?, conflicts_eq]
    case balanced => exact balanced.record c

theorem Tallies.run (sourceCount : Nat) (os : List (String × Outcome R)) :
    Tallies sourceCount os
      (os.foldl (fun report o => o.2.account report) (.start sourceCount)) := by
  induction os using List.reverseRecOn with
  | nil => exact ⟨rfl, rfl, rfl, rfl, rfl⟩
  | append_singleton os o ih =>
    rw [List.foldl_append]
    exact ih.account o

/-- Without a record all counters but that of what is agreed are zero. -/
theorem Tallies.eq_of_clean {sourceCount : Nat} {os : List (String × Outcome R)}
    {r : MergeReport R} (h : Tallies sourceCount os r) (clean : r.conflicts = []) :
    r = ⟨sourceCount, os.countP (fun o => o.2.isAgreed), 0, 0, []⟩ := by
  have none := h.balanced.length_conflicts
  rw [clean, List.length_nil] at none
  have conflicted : r.propertiesConflicted = 0 := by omega
  have unioned : r.propertiesUnioned = 0 := by omega
  rcases r with ⟨sources, agreed, conflicted', unioned', conflicts⟩
  rw [MergeReport.mk.injEq]
  exact ⟨h.sourceCount_eq, h.agreed_eq, conflicted, unioned, clean⟩

theorem reportOf_tallies (sourceCount : Nat) (merged : List (MergedNode R)) :
    Tallies sourceCount (merged.flatMap MergedNode.outcomes) (reportOf sourceCount merged) :=
  .run sourceCount (merged.flatMap MergedNode.outcomes)

theorem flatMap_conflicts (merged : List (MergedNode R)) :
    merged.flatMap MergedNode.conflicts =
      (merged.flatMap MergedNode.outcomes).filterMap (fun o => o.2.conflict?) :=
  List.filterMap_flatMap.symm

theorem reportOf_conflicts (sourceCount : Nat) (merged : List (MergedNode R)) :
    (reportOf sourceCount merged).conflicts = merged.flatMap MergedNode.conflicts :=
  (reportOf_tallies sourceCount merged).conflicts_eq.trans (flatMap_conflicts merged).symm

theorem reportOf_total (sourceCount : Nat) (merged : List (MergedNode R)) :
    (reportOf sourceCount merged).total = (merged.map (fun k => k.outcomes.length)).sum := by
  have tallies := reportOf_tallies sourceCount merged
  have every := countP_isAgreed_add_length (merged.flatMap MergedNode.outcomes)
  rw [← tallies.agreed_eq, ← tallies.conflicts_eq, tallies.balanced.length_conflicts] at every
  rw [MergeReport.total, Nat.add_assoc, every, List.length_flatMap]

theorem mem_conflicts {k : MergedNode R} {c : Conflict R} :
    c ∈ k.conflicts ↔ ∃ p, (p, Outcome.contested c) ∈ k.outcomes := by
  unfold MergedNode.conflicts
  rw [List.mem_filterMap]
  constructor
  · rintro ⟨⟨p, value | conflict⟩, ho, found⟩
    · cases found
    · cases found
      exact ⟨p, ho⟩
  · rintro ⟨p, ho⟩
    exact ⟨_, ho, rfl⟩

theorem pairwise_firstPlace {ks : List (MergedNode R)} (distinct : (ks.map MergedNode.id).Nodup)
    (more : List (Node R)) :
    ks.Pairwise (fun k l => firstPlace (ks.map MergedNode.node ++ more) k.id <
      firstPlace (ks.map MergedNode.node ++ more) l.id) := by
  induction ks with
  | nil => exact List.Pairwise.nil
  | cons k rest ih =>
    rw [List.map_cons, List.nodup_cons] at distinct
    have later {l : MergedNode R} (hl : l ∈ rest) :
        firstPlace ((k :: rest).map MergedNode.node ++ more) l.id =
          firstPlace (rest.map MergedNode.node ++ more) l.id + 1 := by
      have other : k.id ≠ l.id := fun same => distinct.1 (same ▸ List.mem_map_of_mem hl)
      have passed : (k.id == l.id) = false := beq_false_of_ne other
      simp [firstPlace, List.findIdx_cons, MergedNode.node, passed]
    have here : firstPlace ((k :: rest).map MergedNode.node ++ more) k.id = 0 := by
      simp [firstPlace, List.findIdx_cons, MergedNode.node]
    refine List.pairwise_cons.2 ⟨fun l hl => ?_, (ih distinct.2).imp_of_mem ?_⟩
    · rw [here, later hl]
      exact Nat.succ_pos _
    · intro a b ha hb before
      rw [later ha, later hb]
      exact Nat.succ_lt_succ before

/-- Stands before another record: at an earlier node, or at the same node under a lesser name. -/
def Precedes (m : Graph R) (c d : Conflict R) : Prop :=
  firstPlace m.nodes c.nodeId < firstPlace m.nodes d.nodeId ∨
    c.nodeId = d.nodeId ∧ c.property < d.property

theorem Precedes.ne {m : Graph R} {c d : Conflict R} (h : Precedes m c d) :
    (c.nodeId, c.property) ≠ (d.nodeId, d.property) := by
  intro same
  rcases Prod.mk.inj same with ⟨same_node, same_property⟩
  rcases h with before | ⟨-, before⟩
  · rw [same_node] at before
    exact Nat.lt_irrefl _ before
  · rw [same_property] at before
    exact String.lt_irrefl _ before

end

variable [NumberText R]

theorem settle_record {id p : String} {values : List (PropertyValue R)} {s : MergeStrategy}
    {c : Conflict R} (h : settle id p values s = .ok c) :
    c.nodeId = id ∧ c.property = p ∧ c.values = values ∧ c.strategy = s := by
  cases s with
  | contest s =>
    rcases bind_eq_ok_iff.1 h with ⟨r, -, h⟩
    cases h
    exact ⟨rfl, rfl, rfl, rfl⟩
  | union =>
    cases h
    exact ⟨rfl, rfl, rfl, rfl⟩

section Becomes
variable {options : MergeOptions} {id p : String} {members : List (Node R)}

/-- A property that has a record is contested, and the record says which property and by whom. -/
theorem Becomes.contested {c : Conflict R} (h : Becomes options id members p (.contested c)) :
    Contested (valuesOf members p) ∧ c.nodeId = id ∧ c.property = p ∧
      c.values = valuesOf members p ∧ c.strategy = options.strategy := by
  rcases h with ⟨first, rest, values, reconciled⟩
  rw [values]
  by_cases same : ∀ v ∈ rest, v.agrees first = true
  · rcases (reconcile_eq_ok_of_agree same).1 reconciled with ⟨w, -, h⟩
    cases h
  · rcases (reconcile_eq_ok_of_not_agree same).1 reconciled with ⟨c', settled, h⟩
    cases h
    exact ⟨contested_cons_iff.2 same, settle_record settled⟩

theorem Becomes.exists_contested {o : Outcome R} (h : Becomes options id members p o)
    (contested : Contested (valuesOf members p)) :
    ∃ c, o = .contested c ∧ settle id p (valuesOf members p) options.strategy = .ok c := by
  rcases h with ⟨first, rest, values, reconciled⟩
  rw [values] at contested ⊢
  rcases (reconcile_eq_ok_of_not_agree (contested_cons_iff.1 contested)).1 reconciled with
    ⟨c, settled, rfl⟩
  exact ⟨c, rfl, settled⟩

end Becomes

/-- What the account of a merge says of the merged graph and its sources. -/
structure Accounts (graphs : List (Graph R)) (options : MergeOptions) (m : Graph R)
    (report : MergeReport R) : Prop where
  total_eq : report.total =
    ((m.nodes.filter (fun n => n.id.isSome)).map (fun n => n.properties.length)).sum
  length_conflicts :
    report.conflicts.length = report.propertiesConflicted + report.propertiesUnioned
  conflicted_of_union : options.strategy = .union → report.propertiesConflicted = 0
  unioned_of_contest : options.strategy ≠ .union → report.propertiesUnioned = 0
  distinct : (report.conflicts.map (fun c => (c.nodeId, c.property))).Nodup
  ordered : report.conflicts.Pairwise (Precedes m)
  values_eq : ∀ c ∈ report.conflicts,
    c.values = valuesOf (membersOf (graphs.flatMap Graph.nodes) c.nodeId) c.property
  several : ∀ c ∈ report.conflicts, 2 ≤ c.values.length
  contested : ∀ c ∈ report.conflicts, Contested c.values
  recorded : ∀ id p, Contested (valuesOf (membersOf (graphs.flatMap Graph.nodes) id) p) →
    ∃ c ∈ report.conflicts, c.nodeId = id ∧ c.property = p
  winner_written : ∀ c ∈ report.conflicts,
    ∃ n, m.node? c.nodeId = some n ∧ n.get? c.property = some c.winner

namespace Assembled
variable {graphs : List (Graph R)} {options : MergeOptions} {m : Graph R}
  {report : MergeReport R} {merged : List (MergedNode R)}

theorem mem_conflicts_iff (h : Assembled graphs options m report merged) {c : Conflict R} :
    c ∈ report.conflicts ↔ ∃ k ∈ merged, ∃ p, (p, Outcome.contested c) ∈ k.outcomes := by
  rw [h.report_eq, reportOf_conflicts, List.mem_flatMap]
  simp only [mem_conflicts]

theorem record_of_mem (h : Assembled graphs options m report merged) {k : MergedNode R}
    (hk : k ∈ merged) {p : String} {c : Conflict R} (ho : (p, Outcome.contested c) ∈ k.outcomes) :
    c.nodeId = k.id ∧ c.property = p ∧ Contested c.values ∧
      c.values = valuesOf (membersOf (graphs.flatMap Graph.nodes) c.nodeId) c.property := by
  rcases ((h.merges k hk).becomes_of_mem ho).contested with
    ⟨contested, same_node, same_property, values, -⟩
  rw [same_node, same_property, values]
  exact ⟨rfl, rfl, contested, rfl⟩

theorem balanced (h : Assembled graphs options m report merged) : Balanced report :=
  h.report_eq ▸ (reportOf_tallies graphs.length merged).balanced

theorem strategy_of_mem_conflicts (h : Assembled graphs options m report merged) {c : Conflict R}
    (hc : c ∈ report.conflicts) : c.strategy = options.strategy := by
  rcases h.mem_conflicts_iff.1 hc with ⟨k, hk, p, ho⟩
  exact ((h.merges k hk).becomes_of_mem ho).contested.2.2.2.2

/-- A record is about a contested property, and holds what is written for it. -/
theorem record_of_mem_conflicts (h : Assembled graphs options m report merged) {c : Conflict R}
    (hc : c ∈ report.conflicts) : Contested c.values ∧
      c.values = valuesOf (membersOf (graphs.flatMap Graph.nodes) c.nodeId) c.property ∧
      ∃ n, m.node? c.nodeId = some n ∧ n.get? c.property = some c.winner := by
  rcases h.mem_conflicts_iff.1 hc with ⟨k, hk, p, ho⟩
  rcases h.record_of_mem hk ho with ⟨same_node, same_property, contested, values⟩
  have found := h.node?_eq hk
  have held := (h.merges k hk).get?_node_of_mem ho
  rw [← same_node] at found
  rw [← same_property] at held
  exact ⟨contested, values, k.node, found, held⟩

theorem exists_conflict (h : Assembled graphs options m report merged) {id p : String}
    (contested : Contested (valuesOf (membersOf (graphs.flatMap Graph.nodes) id) p)) :
    ∃ c ∈ report.conflicts, c.nodeId = id ∧ c.property = p ∧
      settle id p (valuesOf (membersOf (graphs.flatMap Graph.nodes) id) p) options.strategy =
        .ok c := by
  obtain ⟨named, present⟩ := named_of_valuesOf_ne_nil contested.ne_nil
  rcases h.exists_of_id present with ⟨k, hk, rfl⟩
  rcases exists_mem_of_forall₂ (h.merges k hk).outcomes named with ⟨⟨p', o⟩, ho, rfl, becomes⟩
  rcases becomes.exists_contested contested with ⟨c, rfl, settled⟩
  rcases settle_record settled with ⟨same_node, same_property, -⟩
  exact ⟨c, h.mem_conflicts_iff.2 ⟨k, hk, p', ho⟩, same_node, same_property, settled⟩

theorem conflicts_ordered (h : Assembled graphs options m report merged) :
    report.conflicts.Pairwise (Precedes m) := by
  rw [h.report_eq, reportOf_conflicts, List.pairwise_flatMap]
  constructor
  -- The records of one node stand in the order of its outcomes.
  · intro k hk
    refine List.pairwise_filterMap.2 ((h.merges k hk).ordered_outcomes.imp_of_mem ?_)
    rintro ⟨p, o⟩ ⟨q, o'⟩ ho ho' before c hc d hd
    cases o with
    | agreed v => cases hc
    | contested c' =>
      cases o' with
      | agreed v => cases hd
      | contested d' =>
        cases hc
        cases hd
        rcases h.record_of_mem hk ho with ⟨node_c, property_c, -⟩
        rcases h.record_of_mem hk ho' with ⟨node_d, property_d, -⟩
        right
        rw [node_c, node_d, property_c, property_d]
        exact ⟨rfl, before⟩
  · have apart := pairwise_firstPlace h.ids.nodup
      ((graphs.flatMap Graph.nodes).filter Node.isAnonymous)
    rw [← h.nodes_eq] at apart
    refine apart.imp_of_mem ?_
    intro k l hk hl before c hc d hd
    rcases mem_conflicts.1 hc with ⟨p, ho⟩
    rcases mem_conflicts.1 hd with ⟨q, ho'⟩
    left
    rw [(h.record_of_mem hk ho).1, (h.record_of_mem hl ho').1]
    exact before

theorem filter_identified (h : Assembled graphs options m report merged) :
    m.nodes.filter (fun n => n.id.isSome) = merged.map MergedNode.node := by
  have kept : (merged.map MergedNode.node).filter (fun n => n.id.isSome) =
      merged.map MergedNode.node := by
    rw [List.filter_eq_self]
    intro n hn
    rcases List.mem_map.1 hn with ⟨k, -, rfl⟩
    rfl
  have dropped : ((graphs.flatMap Graph.nodes).filter Node.isAnonymous).filter
      (fun n => n.id.isSome) = [] := by
    rw [List.filter_eq_nil_iff]
    intro n hn
    have anonymous : n.id.isNone := (List.mem_filter.1 hn).2
    simp [Option.isNone_iff_eq_none.1 anonymous]
  rw [h.nodes_eq, List.filter_append, kept, dropped, List.append_nil]

theorem total_eq (h : Assembled graphs options m report merged) : report.total =
    ((m.nodes.filter (fun n => n.id.isSome)).map (fun n => n.properties.length)).sum := by
  rw [h.filter_identified, List.map_map, h.report_eq, reportOf_total]
  congr 2
  funext k
  simp [MergedNode.node]

end Assembled

/-- The account of every successful merge is exact. -/
theorem merge_accounts {graphs : List (Graph R)} {options : MergeOptions} {m : Graph R}
    {report : MergeReport R} (h : Graph.merge graphs options = .ok (m, report)) :
    Accounts graphs options m report := by
  rcases exists_assembled h with ⟨merged, assembled⟩
  constructor
  case total_eq => exact assembled.total_eq
  case length_conflicts => exact assembled.balanced.length_conflicts
  case conflicted_of_union =>
    exact fun union => assembled.balanced.conflicted_eq_zero
      (fun c hc => (assembled.strategy_of_mem_conflicts hc).trans union)
  case unioned_of_contest =>
    exact fun contest => assembled.balanced.unioned_eq_zero
      (fun c hc => assembled.strategy_of_mem_conflicts hc ▸ contest)
  case distinct =>
    rw [List.nodup_iff_pairwise_ne, List.pairwise_map]
    exact assembled.conflicts_ordered.imp Precedes.ne
  case ordered => exact assembled.conflicts_ordered
  case values_eq => exact fun c hc => (assembled.record_of_mem_conflicts hc).2.1
  case several =>
    exact fun c hc => (assembled.record_of_mem_conflicts hc).1.two_le_length
  case contested => exact fun c hc => (assembled.record_of_mem_conflicts hc).1
  case recorded =>
    intro id p contested
    rcases assembled.exists_conflict contested with ⟨c, hc, same_node, same_property, -⟩
    exact ⟨c, hc, same_node, same_property⟩
  case winner_written => exact fun c hc => (assembled.record_of_mem_conflicts hc).2.2

def disputed : List (Graph Float) :=
  [.ofNodes [⟨some "b", [], none, [("name", .literal (.text "Ada")),
        ("person", .literal (.boolean true))]⟩,
      ⟨some "a", [], none, [("name", .literal (.text "Lab"))]⟩],
    .ofNodes [⟨some "a", [], none, [("name", .literal (.text "Laboratory"))]⟩,
      ⟨some "b", [], none, [("name", .literal (.text "Augusta")),
        ("person", .literal (.boolean true))]⟩]]

def bothNames (name other : String) : PropertyValue Float :=
  .list [.literal (.text name), .literal (.text other)]

def disputedMerge : Graph Float :=
  .ofNodes [⟨some "b", [], none, [("name", bothNames "Ada" "Augusta"),
      ("person", .literal (.boolean true))]⟩,
    ⟨some "a", [], none, [("name", bothNames "Lab" "Laboratory")]⟩]

def disputedReport : MergeReport Float :=
  ⟨2, 1, 0, 2,
    [⟨"b", "name", [.literal (.text "Ada"), .literal (.text "Augusta")], .union,
        bothNames "Ada" "Augusta", ""⟩,
      ⟨"a", "name", [.literal (.text "Lab"), .literal (.text "Laboratory")], .union,
        bothNames "Lab" "Laboratory", ""⟩]⟩

theorem merge_accounts_disputed :
    Graph.merge disputed ⟨.union, .noisyOr⟩ = .ok (disputedMerge, disputedReport) ∧
      Accounts disputed ⟨.union, .noisyOr⟩ disputedMerge disputedReport := by
  have run : Graph.merge disputed ⟨.union, .noisyOr⟩ = .ok (disputedMerge, disputedReport) := rfl
  exact ⟨run, merge_accounts run⟩

end Credence.Merge
