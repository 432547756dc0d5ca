import Credence.Proofs.Merge.Provenance

/-! # How sure a merged graph is of what its sources agree on

Where no source or several sources state a confidence, the value written is held with the
confidence that they justify. Where a single one does, the value written is held with it exactly
when the value that states it ranks before the others, which count as held with zero. A positive
confidence always does, but a stated zero is lost where a value without a confidence has the
lesser text.
-/

namespace Credence
variable {R : Type}

namespace PropertyValue

theorem stated_eq_nil_iff {values : List (PropertyValue R)} :
    stated values = [] ↔ ∀ v ∈ values, v.confidence = none := List.filterMap_eq_nil_iff

theorem stated_eq_singleton_iff {values : List (PropertyValue R)} {c : R} :
    stated values = [c] ↔ ∃ before v after, values = before ++ v :: after ∧
      v.confidence = some c ∧ ∀ u ∈ before ++ after, u.confidence = none := by
  unfold stated
  rw [List.filterMap_eq_cons_iff]
  simp only [List.filterMap_eq_nil_iff, List.mem_append]
  constructor
  · rintro ⟨before, v, after, rfl, none_before, hv, none_after⟩
    exact ⟨before, v, after, rfl, hv, fun u hu => hu.elim (none_before u) (none_after u)⟩
  · rintro ⟨before, v, after, rfl, hv, none⟩
    exact ⟨before, v, after, rfl, fun u hu => none u (.inl hu), hv, fun u hu => none u (.inr hu)⟩

theorem mem_stated {values : List (PropertyValue R)} {c : R} :
    c ∈ stated values ↔ ∃ v ∈ values, v.confidence = some c := List.mem_filterMap

theorem standing_of_none [Scalar R] {v : PropertyValue R} (h : v.confidence = none) :
    v.standing = 0 := by
  simp [standing, h]

theorem standing_of_some [Scalar R] {v : PropertyValue R} {c : R} (h : v.confidence = some c) :
    v.standing = c := by
  simp [standing, h]

/-- Lists agree with nothing but lists, and no list states a confidence. -/
theorem stated_eq_nil_of_agree_list [Scalar R] {first : PropertyValue R}
    {rest : List (PropertyValue R)} (same : ∀ v ∈ rest, v.agrees first = true)
    {items : List (PropertyValue R)} (listed : .list items ∈ first :: rest) :
    stated (first :: rest) = [] := by
  have first_listed : ∃ items', first = .list items' := by
    rcases List.mem_cons.1 listed with h | h
    · exact ⟨items, h.symm⟩
    · have agreed := same _ h
      cases first with
      | list items' => exact ⟨items', rfl⟩
      | literal l => cases agreed
      | annotated a => cases agreed
      | node n => obtain ⟨id, types, c, fields⟩ := n; cases agreed
  rcases first_listed with ⟨items', rfl⟩
  rw [stated_eq_nil_iff]
  intro v hv
  rcases List.mem_cons.1 hv with rfl | hv
  · rfl
  · have agreed := same v hv
    cases v with
    | list _ => rfl
    | literal l => rfl
    | annotated a => cases agreed
    | node n => obtain ⟨id, types, c, fields⟩ := n; cases agreed

end PropertyValue

namespace Merge
open PropertyValue

/-- Two places of a list are one where only one place can hold what they hold. -/
theorem split_unique {α : Type} {p : α → Prop} {before after before' after' : List α} {x y : α}
    (split : before ++ x :: after = before' ++ y :: after') (hy : p y)
    (none : ∀ z ∈ before ++ after, ¬ p z) : before = before' ∧ x = y ∧ after = after' := by
  rcases split_cases split with same | ⟨-, behind⟩ | ⟨ahead, -⟩
  · exact same
  · exact absurd hy (none y (List.mem_append_right before behind))
  · exact absurd hy (none y (List.mem_append_left after ahead))

variable [Scalar R]

/-- The confidence that agreeing values justify: none where none is stated, the one that a single
value states, and the combination of all where several do. -/
def Justified (method : Combination) : List R → Option R → Prop
  | [], held => held = none
  | [c], held => held = some c
  | stated, held => ∃ result, combine stated method = .ok result ∧ held = some result.score

theorem justified_of_several {method : Combination} {stated : List R} {held : Option R}
    (several : 2 ≤ stated.length) : Justified method stated held ↔
      ∃ result, combine stated method = .ok result ∧ held = some result.score := by
  match stated, several with
  | _ :: _ :: _, _ => exact Iff.rfl

variable [NumberText R]

/-- If a single one of some values states a confidence, that value ranks before the others, which
count as held with zero: by a confidence above zero, or by a zero and the first least text. -/
def SoleStatementPrevails (values : List (PropertyValue R)) : Prop :=
  ∀ before v after c, values = before ++ v :: after → v.confidence = some c →
    (∀ u ∈ before ++ after, u.confidence = none) →
      Scalar.rank c 0 = .gt ∨ Scalar.rank c 0 = .eq ∧
        (∀ u ∈ before, v.text < u.text) ∧ ∀ u ∈ after, v.text ≤ u.text

theorem soleStatementPrevails_of_ne {values : List (PropertyValue R)}
    (h : (stated values).length ≠ 1) : SoleStatementPrevails values := by
  intro before v after c split hv none
  refine absurd ?_ h
  rw [stated_eq_singleton_iff.2 ⟨before, v, after, split, hv, none⟩]
  rfl

variable [Std.TransCmp (Scalar.rank (R := R))]

theorem rank_of_leads {before after : List (PropertyValue R)} {v : PropertyValue R} {c : R}
    (hv : v.confidence = some c) (none : ∀ u ∈ before ++ after, u.confidence = none)
    (others : before ++ after ≠ []) (ahead : ∀ u ∈ before, v.outranks u = true)
    (behind : ∀ u ∈ after, u.outranks v = false) :
    Scalar.rank c 0 = .gt ∨ Scalar.rank c 0 = .eq ∧
      (∀ u ∈ before, v.text < u.text) ∧ ∀ u ∈ after, v.text ≤ u.text := by
  have ahead' (u : PropertyValue R) (hu : u ∈ before) :
      Scalar.rank c 0 = .gt ∨ Scalar.rank c 0 = .eq ∧ v.text < u.text := by
    have := outranks_eq_true_iff.1 (ahead u hu)
    rwa [standing_of_some hv, standing_of_none (none u (List.mem_append_left _ hu))] at this
  have behind' (u : PropertyValue R) (hu : u ∈ after) :
      Scalar.rank c 0 = .gt ∨ Scalar.rank c 0 = .eq ∧ v.text ≤ u.text := by
    have := outranks_eq_false_iff.1 (behind u hu)
    rw [standing_of_some hv, standing_of_none (none u (List.mem_append_right _ hu))] at this
    exact this.imp Std.OrientedCmp.gt_of_lt (fun h => ⟨Std.OrientedCmp.eq_symm h.1, h.2⟩)
  by_cases above : Scalar.rank c 0 = .gt
  · exact .inl above
  · rcases List.exists_mem_of_ne_nil _ others with ⟨u, hu⟩
    have level : Scalar.rank c 0 = .eq := by
      rcases List.mem_append.1 hu with hu | hu
      · exact ((ahead' u hu).resolve_left above).1
      · exact ((behind' u hu).resolve_left above).1
    exact .inr ⟨level, fun u hu => ((ahead' u hu).resolve_left above).2,
      fun u hu => ((behind' u hu).resolve_left above).2⟩

theorem leader_eq_of_rank {first v : PropertyValue R} {rest before after : List (PropertyValue R)}
    {c : R} (split : first :: rest = before ++ v :: after) (hv : v.confidence = some c)
    (none : ∀ u ∈ before ++ after, u.confidence = none)
    (h : Scalar.rank c 0 = .gt ∨ Scalar.rank c 0 = .eq ∧
      (∀ u ∈ before, v.text < u.text) ∧ ∀ u ∈ after, v.text ≤ u.text) :
    leader outranks first rest = v := by
  apply outranks_strictWeak.eq_leader_of_split split
  · intro u hu
    rw [outranks_eq_true_iff, standing_of_some hv,
      standing_of_none (none u (List.mem_append_left _ hu))]
    exact h.imp_right (fun level => ⟨level.1, level.2.1 u hu⟩)
  · intro u hu
    rw [outranks_eq_false_iff, standing_of_some hv,
      standing_of_none (none u (List.mem_append_right _ hu))]
    exact h.imp Std.OrientedCmp.lt_of_gt
      (fun level => ⟨Std.OrientedCmp.eq_symm level.1, level.2.2 u hu⟩)

/-- Where a single value states a confidence, the leader has it exactly when that value prevails. -/
theorem leader_confidence_iff {first : PropertyValue R} {rest : List (PropertyValue R)} {c : R}
    (several : rest ≠ []) (sole : stated (first :: rest) = [c]) :
    (leader outranks first rest).confidence = some c ↔
      SoleStatementPrevails (first :: rest) := by
  constructor
  · intro held before v after c' split hv none
    obtain ⟨before', after', split', ahead, behind⟩ :=
      outranks_strictWeak.leader_split first rest
    rw [split] at split'
    obtain ⟨rfl, same, rfl⟩ :=
      split_unique (p := fun u : PropertyValue R => u.confidence ≠ Option.none)
        split' (by simp [held]) (fun u hu => not_not_intro (none u hu))
    rw [← same] at ahead behind
    refine rank_of_leads hv none (fun empty => several ?_) ahead behind
    rw [List.append_eq_nil_iff] at empty
    rw [empty.1, empty.2] at split
    exact (List.cons.inj split).2
  · intro prevails
    rcases stated_eq_singleton_iff.1 sole with ⟨before, v, after, split, hv, none⟩
    rw [leader_eq_of_rank split hv none (prevails before v after c split hv none)]
    exact hv

theorem agree_confidence {first : PropertyValue R} {rest : List (PropertyValue R)}
    {method : Combination} {w : PropertyValue R} (several : rest ≠ [])
    (same : ∀ v ∈ rest, v.agrees first = true) (h : agree first rest method = .ok w) :
    (Justified method (stated (first :: rest)) w.confidence ↔
      SoleStatementPrevails (first :: rest)) ∧
    (¬ SoleStatementPrevails (first :: rest) → w.confidence = none) := by
  rcases agree_eq_ok_iff.1 h with ⟨few, rfl⟩ | ⟨enough, result, hr, hw⟩
  · have lead := leader_mem outranks first rest
    match hs : stated (first :: rest), few with
    | [], _ =>
      have prevails : SoleStatementPrevails (first :: rest) :=
        soleStatementPrevails_of_ne (by simp [hs])
      have none := stated_eq_nil_iff.1 hs _ lead
      exact ⟨iff_of_true none prevails, fun fails => absurd prevails fails⟩
    | [c], _ =>
      have held := leader_confidence_iff several hs
      refine ⟨held, fun fails => ?_⟩
      cases hc : (leader outranks first rest).confidence with
      | none => rfl
      | some c' =>
        have : c' ∈ stated (first :: rest) := mem_stated.2 ⟨_, lead, hc⟩
        rw [hs, List.mem_singleton] at this
        exact absurd (held.1 (this ▸ hc)) fails
  -- The combination replaces whatever the leader states.
  · have prevails : SoleStatementPrevails (first :: rest) :=
      soleStatementPrevails_of_ne (by omega)
    rw [justified_of_several enough]
    refine ⟨iff_of_true ⟨result, hr, ?_⟩ prevails, fun fails => absurd prevails fails⟩
    apply (withConfidence_eq_ok hw).2.resolve_left
    rintro ⟨items, listed⟩
    have none := stated_eq_nil_of_agree_list same (listed ▸ leader_mem outranks first rest)
    simp [none] at enough

/-- A merged graph holds what two or more sources agree on with the confidence that they justify
exactly when a confidence that only one of them states prevails. Where it does not prevail, the
merged graph states none. -/
theorem agreed_confidence_justified_iff {graphs : List (Graph R)} {options : MergeOptions}
    {m : Graph R} {report : MergeReport R}
    (h : Graph.merge graphs options = .ok (m, report)) {id p : String}
    {first : PropertyValue R} {rest : List (PropertyValue R)} (several : rest ≠ [])
    (values : valuesOf (membersOf (graphs.flatMap Graph.nodes) id) p = first :: rest)
    (same : ∀ v ∈ rest, v.agrees first = true) :
    ∃ n w, m.node? id = some n ∧ n.get? p = some w ∧
      (Justified options.combination (stated (first :: rest)) w.confidence ↔
        SoleStatementPrevails (first :: rest)) ∧
      (¬ SoleStatementPrevails (first :: rest) → w.confidence = none) := by
  rcases exists_becomes h values with ⟨n, o, hn, ho, reconciled⟩
  rcases (reconcile_eq_ok_of_agree same).1 reconciled with ⟨w, hw, rfl⟩
  exact ⟨n, w, hn, ho, agree_confidence several same hw⟩

def plainName : PropertyValue Float := .literal (.text "Ada")

def heldName (confidence : Float) : PropertyValue Float :=
  .annotated ⟨.text "Ada", some confidence, none, none, none, []⟩

def twoNamings (confidence : Float) : List (Graph Float) :=
  [.single ⟨some "x", [], none, [("p", plainName)]⟩,
    .single ⟨some "x", [], none, [("p", heldName confidence)]⟩]

theorem agreed_confidence_justified_seven_tenths :
    ∃ m report n w, Graph.merge (twoNamings 0.7) default = .ok (m, report) ∧
      m.node? "x" = some n ∧ n.get? "p" = some w ∧ Justified .noisyOr [0.7] w.confidence := by
  obtain ⟨⟨m, report⟩, run⟩ := exists_eq_ok_of_isOk
    (show (Graph.merge (twoNamings 0.7) default).isOk = true by decide +kernel)
  have values : valuesOf (membersOf ((twoNamings 0.7).flatMap Graph.nodes) "x") "p" =
      [plainName, heldName 0.7] := rfl
  obtain ⟨n, w, hn, hw, held, -⟩ := agreed_confidence_justified_iff run
    (List.cons_ne_nil _ []) values (by decide +kernel)
  refine ⟨m, report, n, w, run, hn, hw, held.2 ?_⟩
  intro before v after c split hv none
  have sole := stated_eq_singleton_iff.2 ⟨before, v, after, split, hv, none⟩
  rcases List.cons.inj (sole : [(0.7 : Float)] = [c]) with ⟨rfl, -⟩
  exact .inl (by decide +kernel)

/-- A stated zero is lost: the same name without a confidence has the lesser text. -/
theorem agreed_confidence_lost_zero :
    ∃ m report n w, Graph.merge (twoNamings 0) default = .ok (m, report) ∧
      (∃ first rest, valuesOf (membersOf ((twoNamings 0).flatMap Graph.nodes) "x") "p" =
          first :: rest ∧ rest ≠ [] ∧ (∀ v ∈ rest, v.agrees first = true) ∧
          stated (first :: rest) = [0]) ∧
      m.node? "x" = some n ∧ n.get? "p" = some w ∧ ¬ Justified .noisyOr [0] w.confidence := by
  obtain ⟨⟨m, report⟩, run⟩ := exists_eq_ok_of_isOk
    (show (Graph.merge (twoNamings 0) default).isOk = true by decide +kernel)
  have values : valuesOf (membersOf ((twoNamings 0).flatMap Graph.nodes) "x") "p" =
      [plainName, heldName 0] := rfl
  have same : ∀ v ∈ [heldName 0], v.agrees plainName = true := by decide +kernel
  have fails : ¬ SoleStatementPrevails [plainName, heldName 0] := by
    intro prevails
    rcases prevails [plainName] (heldName 0) [] 0 rfl rfl (by simp [plainName, confidence])
      with above | ⟨-, lesser, -⟩
    · exact absurd above (by decide +kernel)
    · exact absurd (lesser _ (List.mem_singleton.2 rfl)) (by decide +kernel)
  rcases exists_becomes run values with ⟨n, o, hn, ho, reconciled⟩
  rcases (reconcile_eq_ok_of_agree same).1 reconciled with ⟨w, hw, rfl⟩
  have lost := (agree_confidence (List.cons_ne_nil _ []) same hw).2 fails
  refine ⟨m, report, n, w, run, ⟨_, _, values, List.cons_ne_nil _ [], same, rfl⟩, hn, ho, ?_⟩
  rw [lost]
  intro kept
  cases kept

end Merge
end Credence
