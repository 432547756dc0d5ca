import Credence.Proofs.Merge.Closure
import Credence.Proofs.Merge.Consensus
import Credence.Proofs.Merge.Isolation

/-! # Merges in steps

Where all sources agree, merging some of them first and the others into the result says what one
merge of all of them says. In place of the nodes with one identifier stands the node that they are
merged to, and in place of their confidences what these make together. An average is no such
standing: it does not tell of how many scores it is one.
-/

namespace Credence.Merge
open PropertyValue

section
variable {R : Type} [Scalar R] [NumberText R]

/-- The node that some nodes with one identifier are merged to in their place, or no node in place
of none. -/
inductive Condensed (options : MergeOptions) (id : String) : List (Node R) → List (Node R) → Prop
  | absent : Condensed options id [] []
  | merged {members : List (Node R)} {k : MergedNode R} (present : members ≠ []) (named : k.id = id)
      (merges : k.Merges options members) : Condensed options id members [k.node]

theorem Assembled.condensed {graphs : List (Graph R)} {options : MergeOptions} {m : Graph R}
    {report : MergeReport R} {merged : List (MergedNode R)}
    (h : Assembled graphs options m report merged) (id : String) :
    Condensed options id (membersOf (graphs.flatMap Graph.nodes) id) (membersOf m.nodes id) := by
  rw [h.membersOf_nodes]
  by_cases absent : membersOf (graphs.flatMap Graph.nodes) id = []
  · rw [h.filter_merged_of_absent absent, absent]
    exact .absent
  · rcases h.exists_of_id (membersOf_ne_nil_iff.1 absent) with ⟨k, hk, rfl⟩
    rw [h.filter_merged_of_mem hk]
    exact .merged absent rfl (h.merges k hk)

namespace Condensed
variable {options : MergeOptions} {id : String} {members nodes : List (Node R)}

theorem types_eq (h : Condensed options id members nodes) (more : List (Node R)) :
    unionTypes (nodes ++ more) = unionTypes (members ++ more) := by
  cases h with
  | absent => rfl
  | @merged _ k present named merges =>
    apply sortedNames_congr
    intro t
    have same : t ∈ k.node.types ↔ t ∈ members.flatMap Node.types := by
      change t ∈ k.types ↔ _
      rw [merges.types_eq, unionTypes, mem_sortedNames]
    rw [List.flatMap_append, List.flatMap_append, List.mem_append, List.mem_append, ← same]
    simp

theorem propertyNames_eq (h : Condensed options id members nodes) (more : List (Node R)) :
    propertyNames (nodes ++ more) = propertyNames (members ++ more) := by
  cases h with
  | absent => rfl
  | @merged _ k present named merges =>
    apply sortedNames_congr
    intro p
    have same : p ∈ k.node.propertyNames ↔ p ∈ members.flatMap Node.propertyNames := by
      rw [merges.propertyNames_node, propertyNames, mem_sortedNames]
    rw [List.flatMap_append, List.flatMap_append, List.mem_append, List.mem_append, ← same]
    simp

end Condensed

theorem exists_bare_of_agree {method : Combination} {first w : PropertyValue R}
    {rest : List (PropertyValue R)} (h : agree first rest method = .ok w) :
    ∃ v ∈ first :: rest, w.bare = v.bare :=
  ⟨_, leader_mem outranks first rest, (restated_leader h).bare_eq⟩

/-- The value that some values agree on in their place, or none in place of none. -/
inductive Settled (method : Combination) :
    List (PropertyValue R) → List (PropertyValue R) → Prop
  | absent : Settled method [] []
  | agreed {first w : PropertyValue R} {rest : List (PropertyValue R)}
      (run : agree first rest method = .ok w) : Settled method (first :: rest) [w]

theorem Settled.exists_bare {method : Combination} {values settled : List (PropertyValue R)}
    (h : Settled method values settled) {v : PropertyValue R} (hv : v ∈ settled) :
    ∃ u ∈ values, v.bare = u.bare := by
  cases h with
  | absent => cases hv
  | agreed run =>
    obtain rfl := List.mem_singleton.1 hv
    exact exists_bare_of_agree run

theorem Settled.exists_bare_append {method : Combination}
    {values settled more : List (PropertyValue R)} (h : Settled method values settled)
    {v : PropertyValue R} (hv : v ∈ settled ++ more) : ∃ u ∈ values ++ more, v.bare = u.bare := by
  rcases List.mem_append.1 hv with hv | hv
  · rcases h.exists_bare hv with ⟨u, hu, same⟩
    exact ⟨u, List.mem_append_left more hu, same⟩
  · exact ⟨v, List.mem_append_right values hv, rfl⟩

theorem Settled.eq_nil_iff {method : Combination} {values settled : List (PropertyValue R)}
    (h : Settled method values settled) : settled = [] ↔ values = [] := by
  cases h with
  | absent => exact Iff.rfl
  | agreed run => simp

/-- Values that agree may be settled in steps: what comes of them says the same in the end. -/
theorem Settled.rel {method : Combination} {values settled more : List (PropertyValue R)}
    {o o' : Option (PropertyValue R)} (part : Settled method values settled)
    (stepwise : Settled method (settled ++ more) o.toList)
    (once : Settled method (values ++ more) o'.toList)
    (agreed : ∀ v ∈ values ++ more, ∀ w ∈ values ++ more, v.agrees w = true) :
    Option.Rel (fun v w => v.agrees w = true) o o' := by
  have absent : o = none ↔ o' = none := by
    rw [← Option.toList_eq_nil_iff, ← Option.toList_eq_nil_iff, stepwise.eq_nil_iff,
      once.eq_nil_iff, List.append_eq_nil_iff, List.append_eq_nil_iff, part.eq_nil_iff]
  cases o with
  | none =>
    rw [absent.1 rfl]
    exact .none
  | some v =>
    cases o' with
    | none => cases absent.2 rfl
    | some w =>
      rcases stepwise.exists_bare List.mem_cons_self with ⟨v', hv', same_v'⟩
      rcases part.exists_bare_append hv' with ⟨u, hu, same_v⟩
      rcases once.exists_bare List.mem_cons_self with ⟨w', hw', same_w⟩
      refine .some ?_
      rw [PropertyValue.agrees, same_v', same_v, same_w]
      exact agreed u hu w' hw'

theorem map_id_foldl_add {R : Type} {g g' : Gathered R}
    (same : g.buckets.map Bucket.id = g'.buckets.map Bucket.id) (more : List (Node R)) :
    (more.foldl Gathered.add g).buckets.map Bucket.id =
      (more.foldl Gathered.add g').buckets.map Bucket.id := by
  induction more generalizing g g' with
  | nil => exact same
  | cons n rest ih =>
    apply ih
    unfold Gathered.add
    cases n.id with
    | none => exact same
    | some id => rw [map_id_addToBuckets, map_id_addToBuckets, same]

theorem Assembled.listsIds_nodes {graphs : List (Graph R)} {options : MergeOptions} {m : Graph R}
    {report : MergeReport R} {merged : List (MergedNode R)}
    (h : Assembled graphs options m report merged) :
    ListsIds m.nodes (merged.map MergedNode.id) := by
  rw [h.nodes_eq]
  constructor
  case mem_iff =>
    intro id
    have anonymous :
        some id ∉ ((graphs.flatMap Graph.nodes).filter Node.isAnonymous).map Node.id := by
      intro taken
      rcases List.mem_map.1 taken with ⟨n, hn, same⟩
      have unnamed : n.id.isNone := (List.mem_filter.1 hn).2
      rw [same] at unnamed
      cases unnamed
    rw [List.map_append, List.mem_append, or_iff_left anonymous, List.map_map]
    simp [MergedNode.node]
  case ordered => exact List.pairwise_map.2 (pairwise_firstPlace h.ids.nodup _)

/-- The identifiers of a merged graph and further nodes are those of its sources and these nodes. -/
theorem Assembled.map_id_gather_append {graphs : List (Graph R)} {options : MergeOptions}
    {m : Graph R} {report : MergeReport R} {merged : List (MergedNode R)}
    (h : Assembled graphs options m report merged) (more : List (Node R)) :
    (gather (m.nodes ++ more)).buckets.map Bucket.id =
      (gather (graphs.flatMap Graph.nodes ++ more)).buckets.map Bucket.id := by
  unfold gather
  rw [List.foldl_append, List.foldl_append]
  apply map_id_foldl_add
  have own := (gather_covers m.nodes).ids.unique h.listsIds_nodes
  exact own.trans (h.ids.unique (gather_covers (graphs.flatMap Graph.nodes)).ids)

theorem Assembled.map_id_eq {graphs : List (Graph R)} {options : MergeOptions} {m : Graph R}
    {report : MergeReport R} {merged : List (MergedNode R)}
    (h : Assembled graphs options m report merged) :
    merged.map MergedNode.id = (gather (graphs.flatMap Graph.nodes)).buckets.map Bucket.id :=
  h.ids.unique (gather_covers _).ids

end

section
variable {K : Type} [Field K] [LinearOrder K]

section
variable [NumberText K]

theorem Condensed.settled {options : MergeOptions} {id : String} {members nodes : List (Node K)}
    (h : Condensed options id members nodes) {p : String}
    (agreed : Unanimous (valuesOf members p)) :
    Settled options.combination (valuesOf members p) (valuesOf nodes p) := by
  cases h with
  | absent => exact .absent
  | @merged _ k present named merges =>
    by_cases hp : p ∈ propertyNames members
    · rcases merges.get?_node hp with ⟨o, becomes, held⟩
      rcases becomes.agreed agreed with ⟨first, rest, w, values, hw, rfl⟩
      have own : valuesOf [k.node] p = [w] := List.filterMap_cons_some held
      rw [values, own]
      exact .agreed hw
    · have absent : valuesOf [k.node] p = [] := by
        rw [← merges.propertyNames_node, Node.propertyNames, ← Fields.get?_eq_none_iff] at hp
        exact List.filterMap_cons_none hp
      rw [valuesOf_eq_nil_iff.2 hp, absent]
      exact .absent

theorem settled_heldAt {graphs : List (Graph K)} {options : MergeOptions} {m : Graph K}
    {report : MergeReport K} (h : Graph.merge graphs options = .ok (m, report)) {id p : String}
    (agreed : ∀ v ∈ valuesOf (membersOf (graphs.flatMap Graph.nodes) id) p,
      ∀ w ∈ valuesOf (membersOf (graphs.flatMap Graph.nodes) id) p, v.agrees w = true) :
    Settled options.combination (valuesOf (membersOf (graphs.flatMap Graph.nodes) id) p)
      (heldAt m id p).toList := by
  cases values : valuesOf (membersOf (graphs.flatMap Graph.nodes) id) p with
  | nil =>
    rw [heldAt_eq_none h values]
    exact .absent
  | cons first rest =>
    rw [values] at agreed
    have same : ∀ v ∈ rest, v.agrees first = true :=
      fun v hv => agreed v (List.mem_cons_of_mem first hv) first List.mem_cons_self
    rcases exists_heldAt h values with ⟨o, held, reconciled⟩
    rcases (reconcile_eq_ok_of_agree same).1 reconciled with ⟨w, hw, rfl⟩
    rw [held]
    exact .agreed hw

end

variable [IsStrictOrderedRing K]

theorem Unanimous.agrees {values : List (PropertyValue K)} (h : Unanimous values)
    {v w : PropertyValue K} (hv : v ∈ values) (hw : w ∈ values) : v.agrees w = true :=
  List.Pairwise.forall_of_forall_of_flip (fun a _ => agrees_refl a) h
    (h.imp (fun {a b} same => by rwa [flip, agrees_comm])) hv hw

theorem combinedConfidence_pooled {method : Combination} {confidences : List (Option K)}
    {combined : Option K} (h : combinedConfidence confidences method = .ok combined) :
    (combined <|> (confidences.filterMap id).head?) = method.pooled (confidences.filterMap id) := by
  by_cases few : (confidences.filterMap id).length < 2
  · rw [combinedConfidence_of_few method few] at h
    cases h
    match confidences.filterMap id, few with
    | [], _ => rfl
    | [c], _ => rfl
  · have enough := Nat.not_lt.1 few
    rw [combinedConfidence_of_enough method enough] at h
    rcases map_eq_ok_iff.1 h with ⟨result, made, rfl⟩
    rw [score_of_combine made]
    match confidences.filterMap id, enough with
    | _ :: _ :: _, _ => rfl

variable [NumberText K]

theorem MergedNode.Merges.confidence_pooled {options : MergeOptions} {k : MergedNode K}
    {members : List (Node K)} (h : k.Merges options members) :
    k.confidence = options.combination.pooled (members.filterMap Node.confidence) := by
  rcases h.confidence_eq with ⟨combined, made, held⟩
  have pooled := combinedConfidence_pooled made
  rwa [filterMap_id_map_node, List.head?_filterMap, ← held] at pooled

/-- What sources agree on is held with what their confidences make together, if each states one. -/
theorem agree_pooled {method : Combination} {first w : PropertyValue K}
    {rest : List (PropertyValue K)} (h : agree first rest method = .ok w)
    (state : ∀ v ∈ first :: rest, ∃ c, v.confidence = some c) :
    w.confidence = method.pooled (stated (first :: rest)) := by
  have lead := leader_mem outranks first rest
  rcases state first List.mem_cons_self with ⟨c, hc⟩
  have ahead : stated (first :: rest) = c :: stated rest := List.filterMap_cons_some hc
  cases rest with
  | nil =>
    obtain rfl := agree_single h
    rw [ahead, hc]
    rfl
  | cons second rest =>
    rcases state second (List.mem_cons_of_mem first List.mem_cons_self) with ⟨c', hc'⟩
    have behind : stated (second :: rest) = c' :: stated rest := List.filterMap_cons_some hc'
    rw [behind] at ahead
    rcases agree_eq_ok_iff.1 h with ⟨few, -⟩ | ⟨-, result, made, hw⟩
    · rw [ahead, List.length_cons, List.length_cons] at few
      omega
    · rcases (withConfidence_eq_ok hw).2 with ⟨items, listed⟩ | held
      · rcases state _ lead with ⟨c'', hc''⟩
        rw [listed] at hc''
        cases hc''
      · rw [held, score_of_combine made, ahead]
        rfl

namespace Settled
variable {method : Combination} {values settled : List (PropertyValue K)}

theorem stated_eq (h : Settled method values settled)
    (state : ∀ v ∈ values, ∃ c, v.confidence = some c) :
    stated settled = (method.pooled (stated values)).toList := by
  cases h with
  | absent => rfl
  | @agreed first w rest run =>
    rw [← agree_pooled run state]
    rfl

theorem state (h : Settled method values settled)
    (state : ∀ v ∈ values, ∃ c, v.confidence = some c) :
    ∀ v ∈ settled, ∃ c, v.confidence = some c := by
  cases h with
  | absent => exact fun v hv => absurd hv List.not_mem_nil
  | @agreed first w rest run =>
    rcases state first List.mem_cons_self with ⟨c, hc⟩
    have ahead : stated (first :: rest) = c :: stated rest := List.filterMap_cons_some hc
    refine List.forall_mem_singleton.2 ?_
    rw [agree_pooled run state, ahead]
    exact method.exists_pooled (List.cons_ne_nil _ _)

theorem stated_stepwise {more xs ys : List (PropertyValue K)} (apart : method ≠ .average)
    (part : Settled method values settled) (stepwise : Settled method (settled ++ more) xs)
    (once : Settled method (values ++ more) ys)
    (state : ∀ v ∈ values ++ more, ∃ c, v.confidence = some c) : stated xs = stated ys := by
  have earlier : ∀ v ∈ values, ∃ c, v.confidence = some c :=
    fun v hv => state v (List.mem_append_left more hv)
  have condensed : ∀ v ∈ settled ++ more, ∃ c, v.confidence = some c := by
    intro v hv
    rcases List.mem_append.1 hv with hv | hv
    · exact part.state earlier v hv
    · exact state v (List.mem_append_right values hv)
  rw [stepwise.stated_eq condensed, once.stated_eq state, stated_append, stated_append,
    part.stated_eq earlier, Combination.pooled_append apart]

end Settled

theorem Condensed.confidences_eq {options : MergeOptions} {id : String}
    {members nodes : List (Node K)} (h : Condensed options id members nodes) :
    nodes.filterMap Node.confidence =
      (options.combination.pooled (members.filterMap Node.confidence)).toList := by
  cases h with
  | absent => rfl
  | @merged _ k present named merges =>
    rw [← merges.confidence_pooled]
    rfl

/-- A merged node in place of those that it was merged from makes no difference to the outline of
what it is merged to next, nor to its confidence. -/
theorem Condensed.alike {options : MergeOptions} {id : String}
    (apart : options.combination ≠ .average) {members nodes more : List (Node K)}
    (condensed : Condensed options id members nodes) {k k' : MergedNode K}
    (stepwise : k.Merges options (nodes ++ more)) (once : k'.Merges options (members ++ more)) :
    k.types = k'.types ∧ k.confidence = k'.confidence ∧
      k.node.propertyNames = k'.node.propertyNames := by
  refine ⟨?_, ?_, ?_⟩
  · rw [stepwise.types_eq, once.types_eq, condensed.types_eq]
  · rw [stepwise.confidence_pooled, once.confidence_pooled, List.filterMap_append,
      List.filterMap_append, condensed.confidences_eq, Combination.pooled_append apart]
  · rw [stepwise.propertyNames_node, once.propertyNames_node, condensed.propertyNames_eq]

/-- What merging some sources first and the others into the result has in common with merging all
of them at once. -/
structure Increment (sources : List (Graph K)) (m m' : Graph K) : Prop where
  context_eq : m.context = m'.context
  ids_eq : m.nodes.map Node.id = m'.nodes.map Node.id
  types_eq : m.nodes.map Node.types = m'.nodes.map Node.types
  confidences_eq : m.nodes.map Node.confidence = m'.nodes.map Node.confidence
  names_eq : m.nodes.map Node.propertyNames = m'.nodes.map Node.propertyNames
  anonymous_eq : m.nodes.filter Node.isAnonymous = m'.nodes.filter Node.isAnonymous
  values_agree : ∀ id p, Option.Rel (fun v w => v.agrees w = true) (heldAt m id p) (heldAt m' id p)
  held_eq : ∀ id p, (∀ v ∈ valuesOf (membersOf (sources.flatMap Graph.nodes) id) p,
      ∃ c, v.confidence = some c) →
    (heldAt m id p).bind confidence = (heldAt m' id p).bind confidence

section
variable {gs hs : List (Graph K)} {options : MergeOptions} {part inc whole : Graph K}
  {report report' report'' : MergeReport K}

theorem exists_settled (agreed : SourcesAgree (gs ++ hs))
    (first : Graph.merge gs options = .ok (part, report))
    (second : Graph.merge (part :: hs) options = .ok (inc, report'))
    (once : Graph.merge (gs ++ hs) options = .ok (whole, report'')) (id p : String) :
    ∃ values settled more : List (PropertyValue K),
      valuesOf (membersOf ((gs ++ hs).flatMap Graph.nodes) id) p = values ++ more ∧
      Settled options.combination values settled ∧
      Settled options.combination (settled ++ more) (heldAt inc id p).toList ∧
      Settled options.combination (values ++ more) (heldAt whole id p).toList := by
  have together : valuesOf (membersOf ((gs ++ hs).flatMap Graph.nodes) id) p =
      valuesOf (membersOf (gs.flatMap Graph.nodes) id) p ++
        valuesOf (membersOf (hs.flatMap Graph.nodes) id) p := by
    rw [List.flatMap_append, membersOf_append, valuesOf_append]
  have stepwise : valuesOf (membersOf ((part :: hs).flatMap Graph.nodes) id) p =
      valuesOf (membersOf part.nodes id) p ++
        valuesOf (membersOf (hs.flatMap Graph.nodes) id) p := by
    rw [List.flatMap_cons, membersOf_append, valuesOf_append]
  have unanimous := agreed id p
  rw [together] at unanimous
  rcases exists_assembled first with ⟨merged, assembled⟩
  have earlier := (assembled.condensed id).settled (List.pairwise_append.1 unanimous).1
  refine ⟨_, _, _, together, earlier, ?_, ?_⟩
  · rw [← stepwise]
    apply settled_heldAt second
    intro v hv w hw
    rw [stepwise] at hv hw
    rcases earlier.exists_bare_append hv with ⟨v', hv', same_v⟩
    rcases earlier.exists_bare_append hw with ⟨w', hw', same_w⟩
    rw [PropertyValue.agrees, same_v, same_w]
    exact unanimous.agrees hv' hw'
  · rw [← together]
    apply settled_heldAt once
    intro v hv w hw
    exact (agreed id p).agrees hv hw

theorem increment_of_merge (apart : options.combination ≠ .average)
    (agreed : SourcesAgree (gs ++ hs)) (first : Graph.merge gs options = .ok (part, report))
    (second : Graph.merge (part :: hs) options = .ok (inc, report'))
    (once : Graph.merge (gs ++ hs) options = .ok (whole, report'')) :
    Increment (gs ++ hs) inc whole := by
  rcases exists_assembled first with ⟨merged, assembled⟩
  rcases exists_assembled second with ⟨merged', assembled'⟩
  rcases exists_assembled once with ⟨merged'', assembled''⟩
  have stepwise : (part :: hs).flatMap Graph.nodes = part.nodes ++ hs.flatMap Graph.nodes :=
    List.flatMap_cons
  have together : (gs ++ hs).flatMap Graph.nodes =
      gs.flatMap Graph.nodes ++ hs.flatMap Graph.nodes := List.flatMap_append
  have anonymous : ((part :: hs).flatMap Graph.nodes).filter Node.isAnonymous =
      ((gs ++ hs).flatMap Graph.nodes).filter Node.isAnonymous := by
    rw [stepwise, together, List.filter_append, List.filter_append, filter_isAnonymous first]
  have ids : merged'.map MergedNode.id = merged''.map MergedNode.id := by
    rw [assembled'.map_id_eq, assembled''.map_id_eq, stepwise, together,
      assembled.map_id_gather_append]
  have alike : List.Forall₂ (fun k k' : MergedNode K => k.id = k'.id ∧ k.types = k'.types ∧
      k.confidence = k'.confidence ∧ k.node.propertyNames = k'.node.propertyNames)
      merged' merged'' := by
    apply forall₂_of_map_eq ids
    intro k hk k' hk' same
    have merges := assembled'.merges k hk
    have merges' := assembled''.merges k' hk'
    rw [stepwise, membersOf_append] at merges
    rw [together, membersOf_append, ← same] at merges'
    exact ⟨same, (assembled.condensed k.id).alike apart merges merges'⟩
  have shared {α : Type} {part' : Node K → α} (same : ∀ k k' : MergedNode K,
      k.id = k'.id ∧ k.types = k'.types ∧ k.confidence = k'.confidence ∧
        k.node.propertyNames = k'.node.propertyNames → part' k.node = part' k'.node) :
      inc.nodes.map part' = whole.nodes.map part' :=
    assembled'.map_nodes_eq assembled'' anonymous (alike.imp same)
  constructor
  case context_eq =>
    rw [context_eq second, context_eq once, List.findSome?_cons, List.findSome?_append,
      context_eq first]
    cases gs.findSome? Graph.context <;> rfl
  case ids_eq => exact shared (fun k k' h => congrArg some h.1)
  case types_eq => exact shared (fun k k' h => h.2.1)
  case confidences_eq => exact shared (fun k k' h => h.2.2.1)
  case names_eq => exact shared (fun k k' h => h.2.2.2)
  case anonymous_eq => rw [filter_isAnonymous second, filter_isAnonymous once, anonymous]
  case values_agree =>
    intro id p
    rcases exists_settled agreed first second once id p with
      ⟨values, settled, more, all, earlier, stepwise, once⟩
    have unanimous := agreed id p
    rw [all] at unanimous
    exact earlier.rel stepwise once (fun v hv w hw => unanimous.agrees hv hw)
  case held_eq =>
    intro id p state
    rcases exists_settled agreed first second once id p with
      ⟨values, settled, more, all, earlier, stepwise, once⟩
    rw [all] at state
    rw [← head?_stated_toList, ← head?_stated_toList,
      earlier.stated_stepwise apart stepwise once state]

end

/-- Sources that are read from documents and agree may be merged in steps: what it comes to does not
depend on the steps. -/
theorem merge_incremental {gs hs : List (Graph K)} (options : MergeOptions)
    (apart : options.combination ≠ .average) (enough : 2 ≤ gs.length) (further : hs ≠ [])
    (decoded : ∀ g ∈ gs ++ hs, g.Decoded) (agreed : SourcesAgree (gs ++ hs)) :
    ∃ part inc whole report report' report'',
      Graph.merge gs options = .ok (part, report) ∧
      Graph.merge (part :: hs) options = .ok (inc, report') ∧
      Graph.merge (gs ++ hs) options = .ok (whole, report'') ∧ Increment (gs ++ hs) inc whole := by
  have formed (g : Graph K) (hg : g ∈ gs ++ hs) := (decoded g hg).wellFormed
  have earlier (g : Graph K) (hg : g ∈ gs) := formed g (List.mem_append_left hs hg)
  rcases exists_merge_of_wellFormed scoresCombine options enough earlier with ⟨part, report, first⟩
  have two : 2 ≤ (part :: hs).length := Nat.succ_le_succ (List.length_pos_iff.2 further)
  have stepwise : ∀ g ∈ part :: hs, g.WellFormed :=
    List.forall_mem_cons.2 ⟨wellFormed_merge scoresCombine earlier first,
      fun g hg => formed g (List.mem_append_right gs hg)⟩
  rcases exists_merge_of_wellFormed scoresCombine options two stepwise with ⟨inc, report', second⟩
  have all : 2 ≤ (gs ++ hs).length := by
    rw [List.length_append]
    omega
  rcases exists_merge_of_wellFormed scoresCombine options all formed with ⟨whole, report'', once⟩
  exact ⟨part, inc, whole, report, report', report'', first, second, once,
    increment_of_merge apart agreed first second once⟩

end

/-- Graphs that tell the same name agree, however sure of it they are. -/
theorem sourcesAgree_known (name : String) (held : List ℚ) :
    SourcesAgree (held.map (known name)) := by
  intro id p
  have told (v : PropertyValue ℚ) (hv : v ∈ valuesOf (membersOf
      ((held.map (known name)).flatMap Graph.nodes) id) p) :
      ∃ c, v = .annotated (noted name c) := by
    rcases mem_valuesOf.1 hv with ⟨n, hn, found⟩
    rcases List.mem_flatMap.1 (mem_membersOf.1 hn).1 with ⟨g, hg, hn⟩
    rcases List.mem_map.1 hg with ⟨c, -, rfl⟩
    obtain rfl := List.mem_singleton.1 hn
    have listed := Fields.mem_of_get?_eq_some found
    cases List.mem_singleton.1 listed
    exact ⟨c, rfl⟩
  apply List.pairwise_of_forall_mem_list
  intro v hv w hw
  rcases told v hv with ⟨c, rfl⟩
  rcases told w hw with ⟨c', rfl⟩
  exact agrees_refl (.annotated (noted name c))

theorem merge_incremental_names :
    ∃ part inc whole report report' report'',
      Graph.merge [known "Ada" (1 / 2), known "Ada" (9 / 10)] ⟨.contest .recency, .noisyOr⟩ =
        .ok (part, report) ∧
      Graph.merge [part, known "Ada" (1 / 4)] ⟨.contest .recency, .noisyOr⟩ =
        .ok (inc, report') ∧
      Graph.merge [known "Ada" (1 / 2), known "Ada" (9 / 10), known "Ada" (1 / 4)]
        ⟨.contest .recency, .noisyOr⟩ = .ok (whole, report'') ∧
      Increment [known "Ada" (1 / 2), known "Ada" (9 / 10), known "Ada" (1 / 4)] inc whole := by
  have half : Scalar.InUnit (1 / 2 : ℚ) := ⟨by norm_num, by norm_num⟩
  have most : Scalar.InUnit (9 / 10 : ℚ) := ⟨by norm_num, by norm_num⟩
  have quarter : Scalar.InUnit (1 / 4 : ℚ) := ⟨by norm_num, by norm_num⟩
  have decoded : ∀ g ∈ [known "Ada" (1 / 2), known "Ada" (9 / 10), known "Ada" (1 / 4)],
      g.Decoded :=
    List.forall_mem_cons.2 ⟨decoded_known "Ada" half, List.forall_mem_cons.2
      ⟨decoded_known "Ada" most, List.forall_mem_singleton.2 (decoded_known "Ada" quarter)⟩⟩
  have enough : 2 ≤ [known "Ada" (1 / 2), known "Ada" (9 / 10)].length := Nat.le_refl 2
  have further : [known "Ada" (1 / 4)] ≠ [] := List.cons_ne_nil _ _
  exact merge_incremental ⟨.contest .recency, .noisyOr⟩ (by decide) enough further decoded
    (sourcesAgree_known "Ada" [1 / 2, 9 / 10, 1 / 4])

end Credence.Merge
