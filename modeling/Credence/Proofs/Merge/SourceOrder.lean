import Credence.Proofs.Graph.Encoding
import Credence.Proofs.Merge.Consensus
import Credence.Proofs.Scalar.Tenths

/-! # The order of sources that agree

Sources that are read from documents and agree wherever they speak of the same are merged alike in
whatever order they come: what is written for a node, its types, its confidence and the values of
its properties with all that is known of their origin, does not depend on it. With exact scalars
the confidences of several sources combine in any order, and the value kept is the most confident
one with the least text, which is the same document wherever texts determine documents.
-/

namespace Credence.Merge
open PropertyValue

section
variable {R : Type}

theorem membersOf_perm {nodes nodes' : List (Node R)} (perm : nodes.Perm nodes') (id : String) :
    (membersOf nodes id).Perm (membersOf nodes' id) := perm.filter _

theorem valuesOf_perm {members members' : List (Node R)} (perm : members.Perm members')
    (p : String) : (valuesOf members p).Perm (valuesOf members' p) := perm.filterMap _

theorem propertyNames_perm {members members' : List (Node R)}
    (perm : members.Perm members') : propertyNames members = propertyNames members' :=
  sortedNames_congr (fun _ => (perm.flatMap_right _).mem_iff)

theorem unionTypes_perm {members members' : List (Node R)}
    (perm : members.Perm members') : unionTypes members = unionTypes members' :=
  sortedNames_congr (fun _ => (perm.flatMap_right _).mem_iff)

theorem propertyCount_eq {nodes : List (Node R)} (covers : (gather nodes).Covers nodes) :
    propertyCount nodes = (((gather nodes).buckets.map Bucket.id).map
      (fun id => (propertyNames (membersOf nodes id)).length)).sum := by
  unfold propertyCount
  rw [List.map_map]
  congr 1
  apply List.map_congr_left
  intro b hb
  rw [covers.members_eq b hb]
  rfl

theorem propertyCount_perm {nodes nodes' : List (Node R)} (perm : nodes.Perm nodes') :
    propertyCount nodes = propertyCount nodes' := by
  have covers := gather_covers nodes
  have covers' := gather_covers nodes'
  have ids : ((gather nodes).buckets.map Bucket.id).Perm
      ((gather nodes').buckets.map Bucket.id) := by
    rw [List.perm_ext_iff_of_nodup covers.ids.nodup covers'.ids.nodup]
    intro id
    rw [covers.ids.mem_iff, covers'.ids.mem_iff, (perm.map Node.id).mem_iff]
  rw [propertyCount_eq covers, propertyCount_eq covers']
  have same : (fun id => (propertyNames (membersOf nodes id)).length) =
      fun id => (propertyNames (membersOf nodes' id)).length := by
    funext id
    rw [propertyNames_perm (membersOf_perm perm id)]
  rw [same]
  exact (ids.map _).sum_eq

end

section
variable {R : Type} [Scalar R]

/-- Two graphs that say the same of every identifier and have the same nodes without one, in
whatever order. -/
structure Alike (m m' : Graph R) : Prop where
  identified : ∀ id, (m.node? id).map Node.toJson = (m'.node? id).map Node.toJson
  anonymous : (m.nodes.filter Node.isAnonymous).Perm (m'.nodes.filter Node.isAnonymous)

/-- Outcomes of one list of names that are written alike one by one make the same fields. -/
theorem toFields_eq_of_forall₂ {names : List String} {r r' : String → Outcome R → Prop}
    (alike : ∀ p o o', r p o → r' p o' → o.value.toJson = o'.value.toJson)
    {os os' : List (String × Outcome R)}
    (h : List.Forall₂ (fun p o => o.1 = p ∧ r p o.2) names os)
    (h' : List.Forall₂ (fun p o => o.1 = p ∧ r' p o.2) names os') :
    toFields (os.map (fun o => (o.1, o.2.value))) =
      toFields (os'.map (fun o => (o.1, o.2.value))) := by
  induction h generalizing os' with
  | nil =>
    cases h'
    rfl
  | @cons p o names os hp _ ih =>
    cases h' with
    | @cons _ o' _ os' hp' rest' =>
      rw [List.map_cons, List.map_cons, toFields, toFields, ih rest', hp.1, hp'.1,
        alike p o.2 o'.2 hp.2 hp'.2]

variable [NumberText R] [Std.TransCmp (Scalar.rank (R := R))]

/-- Whoever leads, the same is written for it. -/
theorem leader_toJson_of_perm (faithful : Function.Injective (Json.print (R := R)))
    {first first' : PropertyValue R} {rest rest' : List (PropertyValue R)}
    (perm : (first :: rest).Perm (first' :: rest')) :
    (leader outranks first rest).toJson = (leader outranks first' rest').toJson := by
  have beaten : (leader outranks first rest).outranks (leader outranks first' rest') = false :=
    outranks_strictWeak.not_beats_leader (perm.mem_iff.1 (leader_mem _ _ _))
  have beaten' : (leader outranks first' rest').outranks (leader outranks first rest) = false :=
    outranks_strictWeak.not_beats_leader (perm.mem_iff.2 (leader_mem _ _ _))
  rw [outranks_eq_false_iff] at beaten beaten'
  -- Neither outranks the other, so their texts are equal, and texts tell documents apart.
  apply faithful
  rcases beaten with below | ⟨level, le⟩
  · rcases beaten' with below' | ⟨level', -⟩
    · have above := Std.OrientedCmp.gt_of_lt below
      rw [below'] at above
      cases above
    · have level := Std.OrientedCmp.eq_symm level'
      rw [below] at level
      cases level
  · rcases beaten' with below' | ⟨-, le'⟩
    · have level' := Std.OrientedCmp.eq_symm level
      rw [below'] at level'
      cases level'
    · exact String.le_antisymm le' le

end

/-- At most one element comes first in any order. -/
theorem head?_eq_of_perm {α : Type} {xs ys : List α} (perm : xs.Perm ys) (few : xs.length < 2) :
    xs.head? = ys.head? := by
  match xs, few with
  | [], _ => rw [perm.nil_eq]
  | [x], _ => rw [perm.singleton_eq]

variable {K : Type} [Field K] [LinearOrder K]

theorem Unanimous.of_perm {values values' : List (PropertyValue K)} (agreed : Unanimous values)
    (perm : values.Perm values') : Unanimous values' :=
  (perm.pairwise_iff (fun {v w} same => by rwa [agrees_comm])).1 agreed

theorem SourcesAgree.of_perm {graphs graphs' : List (Graph K)} (agreed : SourcesAgree graphs)
    (perm : graphs.Perm graphs') : SourcesAgree graphs' := by
  intro id p
  have perm_values := valuesOf_perm (membersOf_perm (perm.flatMap_right Graph.nodes) id) p
  exact (agreed id p).of_perm perm_values

variable [IsStrictOrderedRing K]

theorem combinedConfidence_perm {confidences confidences' : List (Option K)}
    (perm : confidences.Perm confidences') {method : Combination} {combined : Option K}
    (h : combinedConfidence confidences method = .ok combined) :
    combinedConfidence confidences' method = .ok combined := by
  have stated := perm.filterMap id
  by_cases few : (confidences.filterMap id).length < 2
  · rw [combinedConfidence_of_few method few] at h
    rw [combinedConfidence_of_few method (stated.length_eq ▸ few), h]
  · have enough : 2 ≤ (confidences.filterMap id).length := Nat.not_lt.1 few
    rw [combinedConfidence_of_enough method enough] at h
    rw [combinedConfidence_of_enough method (stated.length_eq ▸ enough)]
    rcases map_eq_ok_iff.1 h with ⟨result, hr, rfl⟩
    exact map_eq_ok_iff.2 ⟨_, combine_perm stated hr, rfl⟩

variable [NumberText K]

theorem agree_toJson_of_perm (faithful : Function.Injective (Json.print (R := K)))
    {first first' : PropertyValue K} {rest rest' : List (PropertyValue K)}
    (perm : (first :: rest).Perm (first' :: rest'))
    (spelled : ∀ v ∈ first :: rest, v.Spelled) {method : Combination} {w w' : PropertyValue K}
    (h : agree first rest method = .ok w) (h' : agree first' rest' method = .ok w') :
    w.toJson = w'.toJson := by
  have lead := leader_toJson_of_perm faithful perm
  have stated_perm : (stated (first :: rest)).Perm (stated (first' :: rest')) :=
    perm.filterMap confidence
  have length := stated_perm.length_eq
  rcases agree_eq_ok_iff.1 h with ⟨few, rfl⟩ | ⟨enough, result, hr, hw⟩
  · rcases agree_eq_ok_iff.1 h' with ⟨-, rfl⟩ | ⟨enough', -⟩
    · exact lead
    · omega
  · rcases agree_eq_ok_iff.1 h' with ⟨few', -⟩ | ⟨-, result', hr', hw'⟩
    · omega
    · rw [combine_perm stated_perm hr] at hr'
      cases hr'
      have kept := spelled _ (leader_mem outranks first rest)
      have kept' := spelled _ (perm.mem_iff.2 (leader_mem outranks first' rest'))
      rw [toJson_withConfidence kept (n := .scalar result.score) rfl hw,
        toJson_withConfidence kept' (n := .scalar result.score) rfl hw', lead]

theorem Becomes.toJson_of_perm (faithful : Function.Injective (Json.print (R := K)))
    {options : MergeOptions} {id p : String} {members members' : List (Node K)}
    (perm : members.Perm members') (spelled : ∀ n ∈ members, n.Spelled)
    (agreed : Unanimous (valuesOf members p)) {o o' : Outcome K}
    (h : Becomes options id members p o) (h' : Becomes options id members' p o') :
    o.value.toJson = o'.value.toJson := by
  have perm_values := valuesOf_perm perm p
  have agreed' := agreed.of_perm perm_values
  rcases h.agreed agreed with ⟨first, rest, w, values, hw, rfl⟩
  rcases h'.agreed agreed' with ⟨first', rest', w', values', hw', rfl⟩
  rw [values, values'] at perm_values
  apply agree_toJson_of_perm faithful perm_values _ hw hw'
  intro v hv
  rw [← values] at hv
  exact spelled_of_mem_valuesOf spelled hv

/-- A confidence that only one node states is kept, and several are combined in any order. -/
theorem MergedNode.Merges.confidence_eq_of_perm {k k' : MergedNode K} {options : MergeOptions}
    {members members' : List (Node K)} (perm : members.Perm members')
    (h : k.Merges options members) (h' : k'.Merges options members') :
    k.confidence = k'.confidence := by
  rcases h.confidence_eq with ⟨combined, hc, held⟩
  rcases h'.confidence_eq with ⟨combined', hc', held'⟩
  rw [combinedConfidence_perm (perm.map Node.confidence) hc] at hc'
  obtain rfl := Except.ok.inj hc'
  rw [held, held']
  by_cases few : (members.filterMap Node.confidence).length < 2
  · rw [← List.head?_filterMap, ← List.head?_filterMap,
      head?_eq_of_perm (perm.filterMap Node.confidence) few]
  · have enough := Nat.not_lt.1 few
    rw [combinedConfidence_of_enough _ (by rwa [List.filterMap_map])] at hc
    rcases map_eq_ok_iff.1 hc with ⟨result, -, rfl⟩
    rfl

theorem MergedNode.Merges.toJson_eq_of_perm (faithful : Function.Injective (Json.print (R := K)))
    {k k' : MergedNode K} {options : MergeOptions} {members members' : List (Node K)}
    (perm : members.Perm members') (spelled : ∀ n ∈ members, n.Spelled)
    (agreed : ∀ p, Unanimous (valuesOf members p))
    (same : k.id = k'.id) (h : k.Merges options members) (h' : k'.Merges options members') :
    k.node.toJson = k'.node.toJson := by
  have types : k.types = k'.types := by
    rw [h.types_eq, h'.types_eq, unionTypes_perm perm]
  have outcomes := h.outcomes
  have outcomes' := h'.outcomes
  rw [← propertyNames_perm perm, ← same] at outcomes'
  have fields := toFields_eq_of_forall₂
    (fun p o o' => Becomes.toJson_of_perm faithful perm spelled (agreed p)) outcomes outcomes'
  unfold MergedNode.node
  rw [Node.toJson, Node.toJson, fields, same, types, h.confidence_eq_of_perm perm h']

/-- Sources that are read from documents and agree are merged alike in any order, under any options
and with the same clean account. -/
theorem merge_source_order {graphs graphs' : List (Graph K)} (options : MergeOptions)
    (faithful : Function.Injective (Json.print (R := K))) (enough : 2 ≤ graphs.length)
    (spelled : ∀ g ∈ graphs, ∃ document, Graph.ofJson document = .ok g)
    (agreed : SourcesAgree graphs) (perm : graphs.Perm graphs') :
    ∃ m m' report, Graph.merge graphs options = .ok (m, report) ∧
      Graph.merge graphs' options = .ok (m', report) ∧ report.conflicts = [] ∧
      (∀ id, some id ∈ (graphs.flatMap Graph.nodes).map Node.id → (m.node? id).isSome) ∧
      Alike m m' := by
  have perm_nodes : (graphs.flatMap Graph.nodes).Perm (graphs'.flatMap Graph.nodes) :=
    perm.flatMap_right _
  have spelled_nodes : ∀ n ∈ graphs.flatMap Graph.nodes, n.Spelled := by
    intro n hn
    rcases List.mem_flatMap.1 hn with ⟨g, hg, hn⟩
    rcases spelled g hg with ⟨document, read⟩
    exact Graph.spelled_of_ofJson read hn
  have spelled_nodes' : ∀ n ∈ graphs'.flatMap Graph.nodes, n.Spelled := by
    intro n hn
    exact spelled_nodes n (perm_nodes.mem_iff.2 hn)
  have agreed' : SourcesAgree graphs' := agreed.of_perm perm
  rcases exists_merge options enough spelled_nodes with ⟨m, report, run⟩
  obtain ⟨m', report', run'⟩ :=
    exists_merge options (perm.length_eq ▸ enough) spelled_nodes'
  have account := report_eq_of_agree run agreed
  have same : report' = report := by
    rw [account, report_eq_of_agree run' agreed', perm.length_eq, propertyCount_perm perm_nodes]
  refine ⟨m, m', report, run, same ▸ run', by rw [account], ?_, ?_, ?_⟩
  · intro id present
    rcases exists_mergedNode run present with ⟨k, -, -, found⟩
    rw [found]
    rfl
  · intro id
    by_cases present : some id ∈ (graphs.flatMap Graph.nodes).map Node.id
    · have present' := (perm_nodes.map Node.id).mem_iff.1 present
      rcases exists_mergedNode run present with ⟨k, rfl, merges, found⟩
      rcases exists_mergedNode run' present' with ⟨k', same_id, merges', found'⟩
      rw [found, found', Option.map_some, Option.map_some]
      have spelled_members : ∀ n ∈ membersOf (graphs.flatMap Graph.nodes) k.id, n.Spelled := by
        intro n hn
        exact spelled_nodes n (mem_membersOf.1 hn).1
      rw [merges.toJson_eq_of_perm faithful (membersOf_perm perm_nodes k.id) spelled_members
        (agreed k.id) same_id.symm merges']
    · have absent' : some id ∉ (graphs'.flatMap Graph.nodes).map Node.id := by
        rwa [← (perm_nodes.map Node.id).mem_iff]
      rw [node?_eq_none run present, node?_eq_none run' absent']
  · rw [filter_isAnonymous run, filter_isAnonymous run']
    exact perm_nodes.filter _

def personFields (type : String) (confidence : ℚ) (name : Json ℚ) : List (String × Json ℚ) :=
  [(Keyword.confidence, .number (.scalar confidence)), (Keyword.id, .text "ex:ada"),
    (Keyword.type, .text type), ("name", name)]

def personDocument (type : String) (confidence : ℚ) (name : Json ℚ) : Json ℚ :=
  .object [(Keyword.members, .array [.object (personFields type confidence name)])]

def person (type : String) (confidence : ℚ) (name : PropertyValue ℚ) : Graph ℚ :=
  .single ⟨some "ex:ada", [type], some confidence, [("name", name)]⟩

theorem ofJson_personDocument {type : String} {confidence : ℚ} {name : Json ℚ}
    {v : PropertyValue ℚ} (unit : Scalar.InUnit confidence)
    (read : PropertyValue.ofJson name = .ok v) :
    Graph.ofJson (personDocument type confidence name) = .ok (person type confidence v) := by
  have checked : checkScore .confidence confidence = .ok () := checkScore_eq_ok_iff.2 unit
  have node : Node.ofFields (personFields type confidence name) =
      .ok ⟨some "ex:ada", [type], some confidence, [("name", v)]⟩ := by
    simp [personFields, Node.ofFields, Keyword.confidence, Keyword.id, Keyword.type,
      readConfidence, Json.toScalar?, Number.toScalar, checked, readId, readTypes, read, bind,
      Except.bind, pure, Except.pure, Node.anonymous]
  have unmarked : Fields.has (personFields type confidence name) Keyword.value = false := rfl
  have members : readMembers (.array [.object (personFields type confidence name)]) =
      .ok [⟨some "ex:ada", [type], some confidence, [("name", v)]⟩] := by
    simp [readMembers, Node.ofJson, unmarked, node, bind, Except.bind, pure, Except.pure]
  simp [Graph.ofJson, personDocument, Fields.get?_cons, members, Keyword.members,
    Keyword.context, bind, Except.bind, pure, Except.pure, person, Graph.single, Graph.ofNodes]

def attributedFields (confidence : ℚ) : List (String × Json ℚ) :=
  [(Keyword.confidence, .number (.scalar confidence)), (Keyword.source, .text "s1"),
    (Keyword.value, .text "Ada")]

def attributed (confidence : ℚ) : PropertyValue ℚ :=
  .annotated ⟨.text "Ada", some confidence, some "s1", none, none, []⟩

theorem ofJson_attributedFields {confidence : ℚ} (unit : Scalar.InUnit confidence) :
    PropertyValue.ofJson (.object (attributedFields confidence)) =
      .ok (attributed confidence) := by
  have checked : checkScore .confidence confidence = .ok () := checkScore_eq_ok_iff.2 unit
  have shaped : Assertion.shape.readObject (attributedFields confidence) =
      .ok (attributedFields confidence) := rfl
  have read : Assertion.readFields (attributedFields confidence) =
      .ok ⟨.text "Ada", some confidence, some "s1", none, none, []⟩ := by
    unfold Assertion.readFields
    rw [shaped]
    simp [attributedFields, Record.required, Record.omissible, Fields.get?_cons, bind,
      Except.bind, pure, Except.pure, Keyword.confidence, Keyword.source, Keyword.value,
      Keyword.extractedAt, Keyword.method, Literal.read, Literal.ofJson?, Record.readNullable,
      Record.readScalar, Record.readText, Except.map, Assertion.otherFields, Assertion.shape,
      FieldRule.required, FieldRule.omissible, Assertion.validate, checked, Except.mapError,
      Number.toScalar]
  exact ofJson_object_eq_ok_iff.2 (.inl ⟨rfl, _, read, rfl⟩)

theorem sourcesAgree_persons {type type' : String} {confidence confidence' : ℚ}
    {v w : PropertyValue ℚ} (same : v.agrees w = true) :
    SourcesAgree [person type confidence v, person type' confidence' w] := by
  intro id p
  by_cases ada : id = "ex:ada"
  · subst ada
    by_cases name : p = "name"
    · subst name
      exact List.pairwise_pair.2 same
    · have none : valuesOf (membersOf ([person type confidence v,
          person type' confidence' w].flatMap Graph.nodes) "ex:ada") p = [] := by
        simp [valuesOf, membersOf, person, Graph.single, Graph.ofNodes, Node.get?,
          Fields.get?_cons, name]
      rw [none]
      exact List.Pairwise.nil
  · have none : membersOf ([person type confidence v,
        person type' confidence' w].flatMap Graph.nodes) id = [] := by
      simp [membersOf, person, Graph.single, Graph.ofNodes, Ne.symm ada]
    rw [none]
    exact List.Pairwise.nil

def agent : Graph ℚ := person "Agent" (1 / 2) (.literal (.text "Ada"))

def sourced : Graph ℚ := person "Person" (4 / 5) (attributed (9 / 10))

theorem merge_source_order_persons :
    ∃ m m' report,
      Graph.merge [agent, sourced] ⟨.contest .recency, .dempsterShafer⟩ = .ok (m, report) ∧
      Graph.merge [sourced, agent] ⟨.contest .recency, .dempsterShafer⟩ = .ok (m', report) ∧
      report.conflicts = [] ∧ (m.node? "ex:ada").isSome ∧ Alike m m' := by
  have spelled : ∀ g ∈ [agent, sourced], ∃ document, Graph.ofJson document = .ok g := by
    intro g hg
    rcases List.mem_cons.1 hg with rfl | hg
    · have read : PropertyValue.ofJson (.text "Ada" : Json ℚ) = .ok (.literal (.text "Ada")) := by
        rw [PropertyValue.ofJson]
      exact ⟨_, ofJson_personDocument ⟨by norm_num, by norm_num⟩ read⟩
    · rw [List.mem_singleton.1 hg]
      exact ⟨_, ofJson_personDocument ⟨by norm_num, by norm_num⟩
        (ofJson_attributedFields ⟨by norm_num, by norm_num⟩)⟩
  have enough : 2 ≤ [agent, sourced].length := Nat.le_refl 2
  obtain ⟨m, m', report, run, run', clean, present, alike⟩ :=
    merge_source_order ⟨.contest .recency, .dempsterShafer⟩
      (Json.print_injective Tenths.unambiguous) enough spelled
      (sourcesAgree_persons rfl) (List.Perm.swap sourced agent [])
  exact ⟨m, m', report, run, run', clean, present "ex:ada" (List.mem_cons_self), alike⟩

end Credence.Merge
