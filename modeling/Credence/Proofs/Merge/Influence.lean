import Credence.Proofs.Merge.Account
import Credence.Scalar.Binary64

/-! # What the options of a merge influence

Which properties are contested, and by which values, does not depend on the options. The
combination has a say in confidences and in values that are not contested, and the strategy in
those that are: where two merges of the same sources choose the same combination they agree on the
former, and where they choose the same strategy on the latter.
-/

namespace Credence

/-- What a record is about: the place of the contested property and the competing values. -/
def Conflict.subject {R : Type} (c : Conflict R) : (String × String) × List (PropertyValue R) :=
  ((c.nodeId, c.property), c.values)

namespace Merge
variable {R : Type}

def contestedPlaces (report : MergeReport R) : List (String × String) :=
  report.conflicts.map (fun c => (c.nodeId, c.property))

/-- What may become of a property under two choices of options. -/
inductive Outcome.Alike (o o' : MergeOptions) : Outcome R → Outcome R → Prop
  | agreed (v v' : PropertyValue R) (held : o.combination = o'.combination → v = v') :
      Alike o o' (.agreed v) (.agreed v')
  | contested (c c' : Conflict R) (subject : c.subject = c'.subject)
      (settled : o.strategy = o'.strategy → c = c') : Alike o o' (.contested c) (.contested c')

structure MergedNode.Alike (o o' : MergeOptions) (k k' : MergedNode R) : Prop where
  id_eq : k.id = k'.id
  types_eq : k.types = k'.types
  confidence_eq : o.combination = o'.combination → k.confidence = k'.confidence
  outcomes : List.Forall₂ (fun x x' => x.1 = x'.1 ∧ x.2.Alike o o' x'.2) k.outcomes k'.outcomes

theorem MergedNode.Alike.propertyNames_eq {o o' : MergeOptions} {k k' : MergedNode R}
    (h : k.Alike o o' k') : k.node.propertyNames = k'.node.propertyNames := by
  have names : k'.outcomes.map Prod.fst = k.outcomes.map Prod.fst :=
    map_eq_map_of_forall₂ (h.outcomes.imp (fun _ _ alike => alike.1.symm))
  simpa [Node.propertyNames, MergedNode.node, Fields.names, Function.comp_def] using names.symm

theorem countP_isAgreed_of_alike {o o' : MergeOptions} {xs xs' : List (String × Outcome R)}
    (h : List.Forall₂ (fun x x' => x.1 = x'.1 ∧ x.2.Alike o o' x'.2) xs xs') :
    xs.countP (fun x => x.2.isAgreed) = xs'.countP (fun x => x.2.isAgreed) := by
  induction h with
  | nil => rfl
  | @cons x x' xs xs' alike _ ih =>
    rcases x with ⟨p, x⟩
    rcases x' with ⟨p', x'⟩
    rw [List.countP_cons, List.countP_cons, ih]
    cases alike.2 with
    | agreed v v' held => rfl
    | contested c c' subject settled => rfl

/-- Of outcomes that are alike the same are contested. -/
theorem conflicts_of_alike {o o' : MergeOptions} {xs xs' : List (String × Outcome R)}
    (h : List.Forall₂ (fun x x' => x.1 = x'.1 ∧ x.2.Alike o o' x'.2) xs xs') :
    List.Forall₂ (fun c c' => c.subject = c'.subject ∧ (o.strategy = o'.strategy → c = c'))
      (xs.filterMap (fun x => x.2.conflict?)) (xs'.filterMap (fun x => x.2.conflict?)) := by
  induction h with
  | nil => exact .nil
  | @cons x x' xs xs' alike _ ih =>
    rcases x with ⟨p, x⟩
    rcases x' with ⟨p', x'⟩
    cases alike.2 with
    | agreed v v' held =>
      rw [List.filterMap_cons_none rfl, List.filterMap_cons_none rfl]
      exact ih
    | contested c c' subject settled => exact .cons ⟨subject, settled⟩ ih

variable [Scalar R] [NumberText R]

/-- The outcome is determined by the choice that applies: the combination where the values agree,
and the strategy where not. -/
theorem reconcile_unique {o o' : MergeOptions} {id p : String} {first : PropertyValue R}
    {rest : List (PropertyValue R)} {x x' : Outcome R}
    (agreed : (∀ v ∈ rest, v.agrees first = true) → o.combination = o'.combination)
    (contested : ¬ (∀ v ∈ rest, v.agrees first = true) → o.strategy = o'.strategy)
    (h : reconcile o id p first rest = .ok x) (h' : reconcile o' id p first rest = .ok x') :
    x = x' := by
  by_cases same : ∀ v ∈ rest, v.agrees first = true
  · rcases (reconcile_eq_ok_of_agree same).1 h with ⟨w, hw, rfl⟩
    rcases (reconcile_eq_ok_of_agree same).1 h' with ⟨w', hw', rfl⟩
    rw [agreed same, hw'] at hw
    rw [Except.ok.inj hw]
  · rcases (reconcile_eq_ok_of_not_agree same).1 h with ⟨c, hc, rfl⟩
    rcases (reconcile_eq_ok_of_not_agree same).1 h' with ⟨c', hc', rfl⟩
    rw [contested same, hc'] at hc
    rw [Except.ok.inj hc]

theorem reconcile_alike {o o' : MergeOptions} {id p : String} {first : PropertyValue R}
    {rest : List (PropertyValue R)} {x x' : Outcome R}
    (h : reconcile o id p first rest = .ok x) (h' : reconcile o' id p first rest = .ok x') :
    x.Alike o o' x' := by
  by_cases same : ∀ v ∈ rest, v.agrees first = true
  · have unique := fun combination =>
      reconcile_unique (fun _ => combination) (fun differ => absurd same differ) h h'
    rcases (reconcile_eq_ok_of_agree same).1 h with ⟨w, -, rfl⟩
    rcases (reconcile_eq_ok_of_agree same).1 h' with ⟨w', -, rfl⟩
    exact .agreed w w' (fun combination => Outcome.agreed.inj (unique combination))
  · have unique := fun strategy =>
      reconcile_unique (fun all => absurd all same) (fun _ => strategy) h h'
    rcases (reconcile_eq_ok_of_not_agree same).1 h with ⟨c, hc, rfl⟩
    rcases (reconcile_eq_ok_of_not_agree same).1 h' with ⟨c', hc', rfl⟩
    rcases settle_record hc with ⟨node, property, values, -⟩
    rcases settle_record hc' with ⟨node', property', values', -⟩
    have subject : c.subject = c'.subject := by
      unfold Conflict.subject
      rw [node, property, values, node', property', values']
    exact .contested c c' subject (fun strategy => Outcome.contested.inj (unique strategy))

theorem Becomes.alike {o o' : MergeOptions} {id p : String} {members : List (Node R)}
    {x x' : Outcome R} (h : Becomes o id members p x) (h' : Becomes o' id members p x') :
    x.Alike o o' x' := by
  rcases h with ⟨first, rest, values, reconciled⟩
  rcases h' with ⟨first', rest', values', reconciled'⟩
  rw [values] at values'
  cases values'
  exact reconcile_alike reconciled reconciled'

theorem MergedNode.Merges.alike {o o' : MergeOptions} {k k' : MergedNode R}
    {members : List (Node R)} (same : k.id = k'.id) (h : k.Merges o members)
    (h' : k'.Merges o' members) : k.Alike o o' k' := by
  constructor
  case id_eq => exact same
  case types_eq => rw [h.types_eq, h'.types_eq]
  case confidence_eq =>
    intro combination
    rcases h.confidence_eq with ⟨combined, made, held⟩
    rcases h'.confidence_eq with ⟨combined', made', held'⟩
    rw [combination, made'] at made
    obtain rfl := Except.ok.inj made
    rw [held, held']
  case outcomes =>
    have outcomes' := h'.outcomes
    rw [← same] at outcomes'
    apply forall₂_of_common _ h.outcomes outcomes'
    rintro p ⟨q, x⟩ ⟨q', x'⟩ ⟨rfl, becomes⟩ ⟨rfl, becomes'⟩
    exact ⟨rfl, becomes.alike becomes'⟩

section
variable {graphs : List (Graph R)} {o o' : MergeOptions} {m m' : Graph R}
  {report report' : MergeReport R}

theorem Assembled.alike {merged merged' : List (MergedNode R)}
    (h : Assembled graphs o m report merged) (h' : Assembled graphs o' m' report' merged') :
    List.Forall₂ (MergedNode.Alike o o') merged merged' := by
  apply forall₂_of_map_eq (h.ids.unique h'.ids)
  intro k hk k' hk' same
  have merges' := h'.merges k' hk'
  rw [← same] at merges'
  exact (h.merges k hk).alike same merges'

/-- What two merges of the same sources have in common under two choices of options. -/
structure Influence (o o' : MergeOptions) (m m' : Graph R) (report report' : MergeReport R) :
    Prop where
  context_eq : m.context = m'.context
  ids_eq : m.nodes.map Node.id = m'.nodes.map Node.id
  types_eq : m.nodes.map Node.types = m'.nodes.map Node.types
  names_eq : m.nodes.map Node.propertyNames = m'.nodes.map Node.propertyNames
  anonymous_eq : m.nodes.filter Node.isAnonymous = m'.nodes.filter Node.isAnonymous
  agreed_eq : report.propertiesAgreed = report'.propertiesAgreed
  subjects_eq : report.conflicts.map Conflict.subject = report'.conflicts.map Conflict.subject
  confidences_eq : o.combination = o'.combination →
    m.nodes.map Node.confidence = m'.nodes.map Node.confidence
  uncontested_eq : o.combination = o'.combination → ∀ id p,
    (id, p) ∉ contestedPlaces report → heldAt m id p = heldAt m' id p
  conflicts_eq : o.strategy = o'.strategy → report.conflicts = report'.conflicts
  contested_eq : o.strategy = o'.strategy → ∀ id p,
    (id, p) ∈ contestedPlaces report → heldAt m id p = heldAt m' id p

theorem mem_contestedPlaces_iff (h : Graph.merge graphs o = .ok (m, report)) {id p : String} :
    (id, p) ∈ contestedPlaces report ↔
      Contested (valuesOf (membersOf (graphs.flatMap Graph.nodes) id) p) := by
  rcases exists_assembled h with ⟨merged, assembled⟩
  unfold contestedPlaces
  rw [List.mem_map]
  constructor
  · rintro ⟨c, hc, place⟩
    cases place
    rcases assembled.record_of_mem_conflicts hc with ⟨contested, values, -⟩
    exact values ▸ contested
  · intro contested
    rcases assembled.exists_conflict contested with ⟨c, hc, node, property, -⟩
    exact ⟨c, hc, by rw [node, property]⟩

/-- Two merges of the same sources hold the same at a place where they make the same choice. -/
theorem heldAt_congr (h : Graph.merge graphs o = .ok (m, report))
    (h' : Graph.merge graphs o' = .ok (m', report')) {id p : String}
    (agreed : (id, p) ∉ contestedPlaces report → o.combination = o'.combination)
    (contested : (id, p) ∈ contestedPlaces report → o.strategy = o'.strategy) :
    heldAt m id p = heldAt m' id p := by
  rw [mem_contestedPlaces_iff h] at agreed contested
  cases values : valuesOf (membersOf (graphs.flatMap Graph.nodes) id) p with
  | nil => rw [heldAt_eq_none h values, heldAt_eq_none h' values]
  | cons first rest =>
    rw [values, contested_cons_iff] at agreed contested
    rcases exists_heldAt h values with ⟨x, held, reconciled⟩
    rcases exists_heldAt h' values with ⟨x', held', reconciled'⟩
    have unique := reconcile_unique (fun same => agreed (not_not_intro same)) contested
      reconciled reconciled'
    rw [held, held', unique]

/-- Each option of a merge makes a difference only where it applies: the combination to confidences
and to what is not contested, the strategy to what is. -/
theorem merge_influence (h : Graph.merge graphs o = .ok (m, report))
    (h' : Graph.merge graphs o' = .ok (m', report')) : Influence o o' m m' report report' := by
  rcases exists_assembled h with ⟨merged, assembled⟩
  rcases exists_assembled h' with ⟨merged', assembled'⟩
  have alike := assembled.alike assembled'
  have outcomes : List.Forall₂ (fun x x' => x.1 = x'.1 ∧ x.2.Alike o o' x'.2)
      (merged.flatMap MergedNode.outcomes) (merged'.flatMap MergedNode.outcomes) :=
    List.rel_flatMap alike (fun _ _ hk => hk.outcomes)
  have conflicts : List.Forall₂ (fun c c' => c.subject = c'.subject ∧
      (o.strategy = o'.strategy → c = c')) report.conflicts report'.conflicts := by
    rw [assembled.report_eq, assembled'.report_eq, reportOf_conflicts, reportOf_conflicts,
      flatMap_conflicts, flatMap_conflicts]
    exact conflicts_of_alike outcomes
  have shared {α : Type} {part : Node R → α}
      (same : ∀ k k' : MergedNode R, k.Alike o o' k' → part k.node = part k'.node) :
      m.nodes.map part = m'.nodes.map part :=
    assembled.map_nodes_eq assembled' rfl (alike.imp same)
  constructor
  case context_eq => rw [context_eq h, context_eq h']
  case ids_eq => exact shared (fun k k' hk => congrArg some hk.id_eq)
  case types_eq => exact shared (fun k k' hk => hk.types_eq)
  case names_eq => exact shared (fun k k' hk => hk.propertyNames_eq)
  case anonymous_eq => rw [filter_isAnonymous h, filter_isAnonymous h']
  case agreed_eq =>
    have count := countP_isAgreed_of_alike outcomes
    rw [assembled.report_eq, assembled'.report_eq, (reportOf_tallies _ merged).agreed_eq,
      (reportOf_tallies _ merged').agreed_eq, count]
  case subjects_eq => exact (map_eq_map_of_forall₂ (conflicts.imp (fun _ _ hc => hc.1.symm))).symm
  case confidences_eq => exact fun same => shared (fun k k' hk => hk.confidence_eq same)
  case uncontested_eq =>
    intro same id p free
    exact heldAt_congr h h' (fun _ => same) (fun taken => absurd taken free)
  case conflicts_eq =>
    intro same
    rw [← List.forall₂_eq_eq_eq]
    exact conflicts.imp (fun _ _ hc => hc.2 same)
  case contested_eq =>
    intro same id p taken
    exact heldAt_congr h h' (fun free => absurd taken free) (fun _ => same)

end

def employed (held : Option Float) (name : String) : Graph Float :=
  .single ⟨some "ex:ada", ["Person"], held,
    [("employer", .annotated ⟨.text "Lab", held, none, none, none, []⟩),
      ("name", .annotated ⟨.text name, held, some name, none, none, []⟩)]⟩

def employments : List (Graph Float) :=
  [employed (some 0.5) "Ada", employed (some 0.25) "Augusta", employed (some 0.5) "Augusta"]

theorem merge_influence_employments :
    ∃ m m' m'' report report' report'',
      Graph.merge employments ⟨.contest .highest, .noisyOr⟩ = .ok (m, report) ∧
      Graph.merge employments ⟨.contest .weightedVote, .noisyOr⟩ = .ok (m', report') ∧
      Graph.merge employments ⟨.contest .highest, .max⟩ = .ok (m'', report'') ∧
      Influence ⟨.contest .highest, .noisyOr⟩ ⟨.contest .weightedVote, .noisyOr⟩ m m'
        report report' ∧
      Influence ⟨.contest .highest, .noisyOr⟩ ⟨.contest .highest, .max⟩ m m'' report report'' := by
  obtain ⟨⟨m, report⟩, run⟩ := exists_eq_ok_of_isOk
    (show (Graph.merge employments ⟨.contest .highest, .noisyOr⟩).isOk = true by decide +kernel)
  obtain ⟨⟨m', report'⟩, run'⟩ := exists_eq_ok_of_isOk
    (show (Graph.merge employments ⟨.contest .weightedVote, .noisyOr⟩).isOk = true by
      decide +kernel)
  obtain ⟨⟨m'', report''⟩, run''⟩ := exists_eq_ok_of_isOk
    (show (Graph.merge employments ⟨.contest .highest, .max⟩).isOk = true by decide +kernel)
  exact ⟨m, m', m'', report, report', report'', run, run', run'', merge_influence run run',
    merge_influence run run''⟩

end Merge
end Credence
