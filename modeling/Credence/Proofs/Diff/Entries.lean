import Credence.Diff.Basic
import Credence.Proofs.Fields

/-! # The entries of a difference

What a node states is found under the names of its properties and, if it has types, under the
reserved name of types. A difference has an added entry for every node and every such statement
that only the second graph has and a removed entry for every one that only the first graph has. A
statement of both is unchanged where its values say the same and modified where they do not.
-/

namespace Credence
variable {R : Type}

namespace Node

theorem get?_facts_of_ne (n : Node R) {p : String} (h : p ≠ Keyword.type) :
    n.facts.get? p = n.get? p := by
  unfold facts
  cases n.typesValue? with
  | some types => exact Fields.get?_insert_of_ne n.properties types h
  | none => exact Fields.get?_erase.trans (if_neg h)

theorem get?_facts_type (n : Node R) : n.facts.get? Keyword.type = n.typesValue? := by
  unfold facts
  cases n.typesValue? with
  | some types => exact Fields.get?_insert_self n.properties Keyword.type types
  | none => exact Fields.get?_erase.trans (if_pos rfl)

theorem typesValue?_eq_none_iff {n : Node R} : n.typesValue? = none ↔ n.types = [] := by
  have sorted : sortedNames n.types = [] ↔ n.types = [] := by
    rw [List.eq_nil_iff_forall_not_mem, List.eq_nil_iff_forall_not_mem]
    simp only [mem_sortedNames]
  rw [← sorted]
  unfold typesValue?
  split <;> simp_all

end Node

theorem Graph.mem_distinctIds_iff {g : Graph R} {id : String} :
    id ∈ distinctIds g.nodes ↔ ∃ n, g.node? id = some n := by
  rw [← Option.isSome_iff_exists, node?, List.find?_isSome, distinctIds, List.mem_eraseDups,
    List.mem_filterMap]
  simp

namespace Diff

theorem mem_overNodes_iff {g : Graph R} {entries : String → Node R → List (Change R)}
    {c : Change R} :
    c ∈ overNodes g entries ↔ ∃ id n, g.node? id = some n ∧ c ∈ entries id n := by
  unfold overNodes
  rw [List.mem_flatMap]
  simp only [Graph.mem_distinctIds_iff]
  constructor
  · rintro ⟨id, ⟨n, hn⟩, hc⟩
    rw [hn] at hc
    exact ⟨id, n, hn, hc⟩
  · rintro ⟨id, n, hn, hc⟩
    refine ⟨id, ⟨n, hn⟩, ?_⟩
    rw [hn]
    exact hc

theorem eq_added_of_mem_fromNew {a : Graph R} {id : String} {n : Node R} {c : Change R}
    (h : c ∈ fromNew a id n) : c = .added ⟨id, none, .node n⟩ := by
  unfold fromNew at h
  split at h
  · cases h
  · exact List.mem_singleton.1 h

variable [Scalar R]

theorem changeOf?_both (id p : String) (v w : PropertyValue R) :
    changeOf? id p (some v) (some w) =
      if v.agrees w then some (.unchanged ⟨id, some p, w⟩) else some (.modified ⟨id, p, v, w⟩) :=
  rfl

theorem changeOf?_eq_added_iff {id p : String} {old new : Option (PropertyValue R)}
    {e : DiffEntry R} : changeOf? id p old new = some (.added e) ↔
      ∃ w, old = none ∧ new = some w ∧ e = ⟨id, some p, w⟩ := by
  cases old with
  | none =>
    cases new with
    | none => simp [changeOf?]
    | some w =>
      rw [eq_comm]
      simp [changeOf?]
  | some v =>
    cases new with
    | none => simp [changeOf?]
    | some w =>
      rw [changeOf?_both]
      cases v.agrees w <;> simp

theorem changeOf?_eq_removed_iff {id p : String} {old new : Option (PropertyValue R)}
    {e : DiffEntry R} : changeOf? id p old new = some (.removed e) ↔
      ∃ v, old = some v ∧ new = none ∧ e = ⟨id, some p, v⟩ := by
  cases old with
  | none => cases new <;> simp [changeOf?]
  | some v =>
    cases new with
    | none =>
      rw [eq_comm]
      simp [changeOf?]
    | some w =>
      rw [changeOf?_both]
      cases v.agrees w <;> simp

theorem changeOf?_eq_modified_iff {id p : String} {old new : Option (PropertyValue R)}
    {e : ModifiedEntry R} : changeOf? id p old new = some (.modified e) ↔
      ∃ v w, old = some v ∧ new = some w ∧ v.agrees w = false ∧ e = ⟨id, p, v, w⟩ := by
  cases old with
  | none => cases new <;> simp [changeOf?]
  | some v =>
    cases new with
    | none => simp [changeOf?]
    | some w =>
      rw [changeOf?_both, eq_comm]
      cases same : v.agrees w <;> simp [same]

theorem changeOf?_eq_unchanged_iff {id p : String} {old new : Option (PropertyValue R)}
    {e : DiffEntry R} : changeOf? id p old new = some (.unchanged e) ↔
      ∃ v w, old = some v ∧ new = some w ∧ v.agrees w = true ∧ e = ⟨id, some p, w⟩ := by
  cases old with
  | none => cases new <;> simp [changeOf?]
  | some v =>
    cases new with
    | none => simp [changeOf?]
    | some w =>
      rw [changeOf?_both, eq_comm]
      cases same : v.agrees w <;> simp [same]

theorem mem_nodeChanges_iff {id : String} {old new : Node R} {c : Change R} :
    c ∈ nodeChanges id old new ↔
      ∃ p, changeOf? id p (old.facts.get? p) (new.facts.get? p) = some c := by
  unfold nodeChanges
  rw [List.mem_filterMap]
  constructor
  · rintro ⟨p, -, hc⟩
    exact ⟨p, hc⟩
  · rintro ⟨p, hc⟩
    refine ⟨p, ?_, hc⟩
    rw [mem_sortedNames, List.mem_append, ← Fields.isSome_get?_iff, ← Fields.isSome_get?_iff]
    cases hold : old.facts.get? p with
    | some v => simp
    | none =>
      cases hnew : new.facts.get? p with
      | some w => simp
      | none => simp [hold, hnew, changeOf?] at hc

end Diff

namespace Change

theorem added?_eq_some_iff {c : Change R} {e : DiffEntry R} : c.added? = some e ↔ c = .added e := by
  cases c <;> simp [added?]

theorem removed?_eq_some_iff {c : Change R} {e : DiffEntry R} :
    c.removed? = some e ↔ c = .removed e := by
  cases c <;> simp [removed?]

theorem modified?_eq_some_iff {c : Change R} {e : ModifiedEntry R} :
    c.modified? = some e ↔ c = .modified e := by
  cases c <;> simp [modified?]

theorem unchanged?_eq_some_iff {c : Change R} {e : DiffEntry R} :
    c.unchanged? = some e ↔ c = .unchanged e := by
  cases c <;> simp [unchanged?]

end Change

namespace GraphDiff

theorem mem_added_ofChanges {cs : List (Change R)} {e : DiffEntry R} :
    e ∈ (ofChanges cs).added ↔ .added e ∈ cs := by
  simp only [ofChanges, List.mem_filterMap, Change.added?_eq_some_iff, exists_eq_right]

theorem mem_removed_ofChanges {cs : List (Change R)} {e : DiffEntry R} :
    e ∈ (ofChanges cs).removed ↔ .removed e ∈ cs := by
  simp only [ofChanges, List.mem_filterMap, Change.removed?_eq_some_iff, exists_eq_right]

theorem mem_modified_ofChanges {cs : List (Change R)} {e : ModifiedEntry R} :
    e ∈ (ofChanges cs).modified ↔ .modified e ∈ cs := by
  simp only [ofChanges, List.mem_filterMap, Change.modified?_eq_some_iff, exists_eq_right]

theorem mem_unchanged_ofChanges {cs : List (Change R)} {e : DiffEntry R} :
    e ∈ (ofChanges cs).unchanged ↔ .unchanged e ∈ cs := by
  simp only [ofChanges, List.mem_filterMap, Change.unchanged?_eq_some_iff, exists_eq_right]

end GraphDiff

variable [Scalar R] {a b : Graph R}

/-- All but added entries are about nodes of the first graph. -/
theorem Diff.mem_changes_iff {c : Change R} (h : c.added? = none) :
    c ∈ overNodes a (fromOld b) ++ overNodes b (fromNew a) ↔
      ∃ id old, a.node? id = some old ∧ c ∈ fromOld b id old := by
  rw [List.mem_append, mem_overNodes_iff, mem_overNodes_iff]
  refine or_iff_left ?_
  rintro ⟨id, n, -, hc⟩
  rw [eq_added_of_mem_fromNew hc] at h
  cases h

namespace Graph

theorem mem_added_iff {e : DiffEntry R} : e ∈ (a.diff b).added ↔
    ∃ new, b.node? e.nodeId = some new ∧
      (a.node? e.nodeId = none ∧ e.property = none ∧ e.value = .node new ∨
        ∃ old p, a.node? e.nodeId = some old ∧ e.property = some p ∧
          old.facts.get? p = none ∧ new.facts.get? p = some e.value) := by
  unfold diff
  rw [GraphDiff.mem_added_ofChanges, List.mem_append, Diff.mem_overNodes_iff,
    Diff.mem_overNodes_iff]
  constructor
  · rintro (⟨id, old, hold, hc⟩ | ⟨id, new, hnew, hc⟩)
    · unfold Diff.fromOld at hc
      split at hc
      · next new hnew =>
        rcases Diff.mem_nodeChanges_iff.1 hc with ⟨p, changed⟩
        rcases Diff.changeOf?_eq_added_iff.1 changed with ⟨w, none, hw, rfl⟩
        exact ⟨new, hnew, .inr ⟨old, p, hold, rfl, none, hw⟩⟩
      · cases List.mem_singleton.1 hc
    · unfold Diff.fromNew at hc
      split at hc
      · cases hc
      · next none =>
        cases List.mem_singleton.1 hc
        exact ⟨new, hnew, .inl ⟨none, rfl, rfl⟩⟩
  · rcases e with ⟨id, property, value⟩
    rintro ⟨new, hnew, ⟨none, rfl, rfl⟩ | ⟨old, p, hold, rfl, none, hw⟩⟩
    · refine .inr ⟨id, new, hnew, ?_⟩
      simp [Diff.fromNew, none]
    · refine .inl ⟨id, old, hold, ?_⟩
      simp only [Diff.fromOld, hnew]
      exact Diff.mem_nodeChanges_iff.2
        ⟨p, Diff.changeOf?_eq_added_iff.2 ⟨value, none, hw, rfl⟩⟩

theorem mem_removed_iff {e : DiffEntry R} : e ∈ (a.diff b).removed ↔
    ∃ old, a.node? e.nodeId = some old ∧
      (b.node? e.nodeId = none ∧ e.property = none ∧ e.value = .node old ∨
        ∃ new p, b.node? e.nodeId = some new ∧ e.property = some p ∧
          old.facts.get? p = some e.value ∧ new.facts.get? p = none) := by
  unfold diff
  rw [GraphDiff.mem_removed_ofChanges, Diff.mem_changes_iff rfl]
  constructor
  · rintro ⟨id, old, hold, hc⟩
    unfold Diff.fromOld at hc
    split at hc
    · next new hnew =>
      rcases Diff.mem_nodeChanges_iff.1 hc with ⟨p, changed⟩
      rcases Diff.changeOf?_eq_removed_iff.1 changed with ⟨v, hv, none, rfl⟩
      exact ⟨old, hold, .inr ⟨new, p, hnew, rfl, hv, none⟩⟩
    · next none =>
      cases List.mem_singleton.1 hc
      exact ⟨old, hold, .inl ⟨none, rfl, rfl⟩⟩
  · rcases e with ⟨id, property, value⟩
    rintro ⟨old, hold, ⟨none, rfl, rfl⟩ | ⟨new, p, hnew, rfl, hv, none⟩⟩
    · refine ⟨id, old, hold, ?_⟩
      simp [Diff.fromOld, none]
    · refine ⟨id, old, hold, ?_⟩
      simp only [Diff.fromOld, hnew]
      exact Diff.mem_nodeChanges_iff.2
        ⟨p, Diff.changeOf?_eq_removed_iff.2 ⟨value, hv, none, rfl⟩⟩

theorem mem_modified_iff {e : ModifiedEntry R} : e ∈ (a.diff b).modified ↔
    ∃ old new, a.node? e.nodeId = some old ∧ b.node? e.nodeId = some new ∧
      old.facts.get? e.property = some e.old ∧ new.facts.get? e.property = some e.new ∧
        e.old.agrees e.new = false := by
  unfold diff
  rw [GraphDiff.mem_modified_ofChanges, Diff.mem_changes_iff rfl]
  constructor
  · rintro ⟨id, old, hold, hc⟩
    unfold Diff.fromOld at hc
    split at hc
    · next new hnew =>
      rcases Diff.mem_nodeChanges_iff.1 hc with ⟨p, changed⟩
      rcases Diff.changeOf?_eq_modified_iff.1 changed with ⟨v, w, hv, hw, differ, rfl⟩
      exact ⟨old, new, hold, hnew, hv, hw, differ⟩
    · cases List.mem_singleton.1 hc
  · rcases e with ⟨id, p, v, w⟩
    rintro ⟨old, new, hold, hnew, hv, hw, differ⟩
    refine ⟨id, old, hold, ?_⟩
    simp only [Diff.fromOld, hnew]
    exact Diff.mem_nodeChanges_iff.2
      ⟨p, Diff.changeOf?_eq_modified_iff.2 ⟨v, w, hv, hw, differ, rfl⟩⟩

theorem mem_unchanged_iff {e : DiffEntry R} : e ∈ (a.diff b).unchanged ↔
    ∃ old new p v, a.node? e.nodeId = some old ∧ b.node? e.nodeId = some new ∧
      e.property = some p ∧ old.facts.get? p = some v ∧ new.facts.get? p = some e.value ∧
        v.agrees e.value = true := by
  unfold diff
  rw [GraphDiff.mem_unchanged_ofChanges, Diff.mem_changes_iff rfl]
  constructor
  · rintro ⟨id, old, hold, hc⟩
    unfold Diff.fromOld at hc
    split at hc
    · next new hnew =>
      rcases Diff.mem_nodeChanges_iff.1 hc with ⟨p, changed⟩
      rcases Diff.changeOf?_eq_unchanged_iff.1 changed with ⟨v, w, hv, hw, same, rfl⟩
      exact ⟨old, new, p, v, hold, hnew, rfl, hv, hw, same⟩
    · cases List.mem_singleton.1 hc
  · rcases e with ⟨id, property, w⟩
    rintro ⟨old, new, p, v, hold, hnew, rfl, hv, hw, same⟩
    refine ⟨id, old, hold, ?_⟩
    simp only [Diff.fromOld, hnew]
    exact Diff.mem_nodeChanges_iff.2
      ⟨p, Diff.changeOf?_eq_unchanged_iff.2 ⟨v, w, hv, hw, same, rfl⟩⟩

end Graph
end Credence
