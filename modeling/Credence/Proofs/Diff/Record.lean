import Credence.Diff.Record
import Credence.Proofs.Diff.Entries
import Credence.Proofs.Graph.ReadBack
import Credence.Proofs.Record

/-! # Differences read back

An entry of a difference holds whole nodes, values of properties and, for types, texts. What holds
throughout two graphs holds throughout all of them, so the difference of graphs that are read from
documents is read back from its record.
-/

namespace Credence
variable {R : Type}

/-- The condition under which a value is read back: it is well-formed at any depth and its instants
are legible. -/
def PropertyValue.Legible [Scalar R] (v : PropertyValue R) : Prop :=
  v.Throughout (fun a => a.WellFormed ∧ a.Dated) Node.WellFormed

theorem PropertyValue.Legible.read_toJson [Scalar R] (finite : ScoresFinite R) {v : PropertyValue R}
    (h : v.Legible) : read v.toJson = .ok v :=
  mapError_eq_ok_iff.2 (ofJson_toJson finite h)

section
variable {A : Assertion R → Prop} {N : Node R → Prop}

theorem Node.throughout_of_typesValue? {n : Node R} {v : PropertyValue R}
    (h : n.typesValue? = some v) : v.Throughout A N := by
  unfold typesValue? at h
  split at h
  · cases h
  · cases h
    exact .literal _
  · cases h
    exact .list (List.forall_mem_map.2 (fun type _ => .literal (.text type)))

theorem Node.throughout_of_facts {n : Node R} (h : (PropertyValue.node n).Throughout A N)
    {p : String} {v : PropertyValue R} (found : n.facts.get? p = some v) : v.Throughout A N := by
  by_cases isType : p = Keyword.type
  · rw [isType, get?_facts_type] at found
    exact throughout_of_typesValue? found
  · rw [get?_facts_of_ne n isType] at found
    exact values_of_throughout h _ (Fields.mem_of_get?_eq_some found)

theorem Graph.Throughout.of_node? {g : Graph R} (h : g.Throughout A N) {id : String} {n : Node R}
    (found : g.node? id = some n) : (PropertyValue.node n).Throughout A N :=
  h n (List.mem_of_find?_eq_some found)

/-- Conditions that hold throughout all values of a difference. -/
structure GraphDiff.Throughout (A : Assertion R → Prop) (N : Node R → Prop) (d : GraphDiff R) :
    Prop where
  added : ∀ e ∈ d.added, e.value.Throughout A N
  removed : ∀ e ∈ d.removed, e.value.Throughout A N
  old : ∀ e ∈ d.modified, e.old.Throughout A N
  new : ∀ e ∈ d.modified, e.new.Throughout A N
  unchanged : ∀ e ∈ d.unchanged, e.value.Throughout A N

theorem Graph.Throughout.diff [Scalar R] {a b : Graph R} (ha : a.Throughout A N)
    (hb : b.Throughout A N) : (a.diff b).Throughout A N := by
  constructor
  case added =>
    intro e he
    obtain ⟨new, hnew, ⟨-, -, whole⟩ | ⟨_, p, -, -, -, found⟩⟩ := mem_added_iff.1 he
    · exact whole ▸ hb.of_node? hnew
    · exact Node.throughout_of_facts (hb.of_node? hnew) found
  case removed =>
    intro e he
    obtain ⟨old, hold, ⟨-, -, whole⟩ | ⟨_, p, -, -, found, -⟩⟩ := mem_removed_iff.1 he
    · exact whole ▸ ha.of_node? hold
    · exact Node.throughout_of_facts (ha.of_node? hold) found
  case old =>
    intro e he
    obtain ⟨old, new, hold, -, found, -⟩ := mem_modified_iff.1 he
    exact Node.throughout_of_facts (ha.of_node? hold) found
  case new =>
    intro e he
    obtain ⟨old, new, -, hnew, -, found, -⟩ := mem_modified_iff.1 he
    exact Node.throughout_of_facts (hb.of_node? hnew) found
  case unchanged =>
    intro e he
    obtain ⟨old, new, p, v, -, hnew, -, -, found, -⟩ := mem_unchanged_iff.1 he
    exact Node.throughout_of_facts (hb.of_node? hnew) found

end

variable [Scalar R]

theorem DiffEntry.read_toRecord {e : DiffEntry R}
    (value : PropertyValue.read e.value.toJson = .ok e.value) : read e.toRecord = .ok e := by
  let pairs : List (String × Json R) := [("nodeId", .text e.nodeId), ("value", e.value.toJson)]
  let fields := (Fields.ofList pairs).insert? "property" (e.property.map .text)
  have kept {name : String} (other : name ≠ "property") {v : Json R} (listed : (name, v) ∈ pairs) :
      fields.get? name = some v := by
    rw [Fields.get?_insert?, if_neg other]
    exact Fields.get?_ofList_of_mem (by simp [pairs]) listed
  have named : fields.get? "property" = e.property.map .text := by
    rw [Fields.get?_insert?, if_pos rfl, Fields.get?_ofList_of_notMem (by simp [pairs])]
    cases e.property <;> rfl
  have nodeId : Record.required fields "nodeId" Record.readText = .ok e.nodeId :=
    Record.required_eq_ok_iff.2 ⟨_, kept (by decide) List.mem_cons_self, rfl⟩
  have property : Record.omissible fields "property" (Record.readNullable Record.readText) none =
      .ok e.property := Record.omissible_eq_ok Record.readText named (fun _ _ => rfl)
  have value : Record.required fields "value" PropertyValue.read = .ok e.value :=
    Record.required_eq_ok_iff.2 ⟨_, kept (by decide) (by simp [pairs]), value⟩
  have record : shape.read e.toRecord = .ok fields := by
    refine Shape.read_object (Fields.ordered_insert? (Fields.ordered_ofList _) _ _) ?_
    simp only [shape, List.forall_mem_cons]
    exact ⟨.required nodeId, .omissible property, .required value, by simp⟩
  simp only [read, record, bind, Except.bind, nodeId, property, value]
  rfl

theorem ModifiedEntry.read_toRecord {e : ModifiedEntry R}
    (old : PropertyValue.read e.old.toJson = .ok e.old)
    (new : PropertyValue.read e.new.toJson = .ok e.new) : read e.toRecord = .ok e := by
  let pairs : List (String × Json R) := [("nodeId", .text e.nodeId), ("property", .text e.property),
    ("old", e.old.toJson), ("new", e.new.toJson)]
  have distinct : (pairs.map Prod.fst).Nodup := by simp [pairs]
  have nodeId : Record.required (Fields.ofList pairs) "nodeId" Record.readText = .ok e.nodeId :=
    Record.required_of_listed distinct (.text e.nodeId) (by simp [pairs]) rfl
  have property : Record.required (Fields.ofList pairs) "property" Record.readText =
      .ok e.property :=
    Record.required_of_listed distinct (.text e.property) (by simp [pairs]) rfl
  have old : Record.required (Fields.ofList pairs) "old" PropertyValue.read = .ok e.old :=
    Record.required_of_listed distinct e.old.toJson (by simp [pairs]) old
  have new : Record.required (Fields.ofList pairs) "new" PropertyValue.read = .ok e.new :=
    Record.required_of_listed distinct e.new.toJson (by simp [pairs]) new
  have record : shape.read e.toRecord = .ok (Fields.ofList pairs) := by
    refine Shape.read_ofFields ?_
    simp only [shape, List.forall_mem_cons]
    exact ⟨.required nodeId, .required property, .required old, .required new, by simp⟩
  simp only [read, record, bind, Except.bind, nodeId, property, old, new]
  rfl

theorem GraphDiff.read_toRecord {d : GraphDiff R}
    (added : ∀ e ∈ d.added, DiffEntry.read e.toRecord = .ok e)
    (removed : ∀ e ∈ d.removed, DiffEntry.read e.toRecord = .ok e)
    (modified : ∀ e ∈ d.modified, ModifiedEntry.read e.toRecord = .ok e)
    (unchanged : ∀ e ∈ d.unchanged, DiffEntry.read e.toRecord = .ok e) :
    read d.toRecord = .ok d := by
  let pairs : List (String × Json R) := [("added", .array (d.added.map DiffEntry.toRecord)),
    ("removed", .array (d.removed.map DiffEntry.toRecord)),
    ("modified", .array (d.modified.map ModifiedEntry.toRecord)),
    ("unchanged", .array (d.unchanged.map DiffEntry.toRecord))]
  have distinct : (pairs.map Prod.fst).Nodup := by simp [pairs]
  have added : Record.required (Fields.ofList pairs) "added" (Record.readList DiffEntry.read) =
      .ok d.added :=
    Record.required_of_listed distinct _ List.mem_cons_self (Record.readList_map added)
  have removed : Record.required (Fields.ofList pairs) "removed" (Record.readList DiffEntry.read) =
      .ok d.removed :=
    Record.required_of_listed distinct (.array (d.removed.map DiffEntry.toRecord))
      (by simp [pairs]) (Record.readList_map removed)
  have modified : Record.required (Fields.ofList pairs) "modified"
      (Record.readList ModifiedEntry.read) = .ok d.modified :=
    Record.required_of_listed distinct (.array (d.modified.map ModifiedEntry.toRecord))
      (by simp [pairs]) (Record.readList_map modified)
  have unchanged : Record.required (Fields.ofList pairs) "unchanged"
      (Record.readList DiffEntry.read) = .ok d.unchanged :=
    Record.required_of_listed distinct (.array (d.unchanged.map DiffEntry.toRecord))
      (by simp [pairs]) (Record.readList_map unchanged)
  have record : shape.read d.toRecord = .ok (Fields.ofList pairs) := by
    refine Shape.read_ofFields ?_
    simp only [shape, List.forall_mem_cons]
    exact ⟨.required added, .required removed, .required modified, .required unchanged, by simp⟩
  simp only [read, record, bind, Except.bind, added, removed, modified, unchanged]
  rfl

/-- A difference whose values are legible is read back from its record. -/
theorem GraphDiff.Throughout.read_toRecord (finite : ScoresFinite R) {d : GraphDiff R}
    (h : d.Throughout (fun a => a.WellFormed ∧ a.Dated) Node.WellFormed) :
    read d.toRecord = .ok d := by
  have value {v : PropertyValue R} (legible : v.Legible) := legible.read_toJson finite
  refine GraphDiff.read_toRecord (fun e he => ?_) (fun e he => ?_) (fun e he => ?_) (fun e he => ?_)
  · exact DiffEntry.read_toRecord (value (h.added e he))
  · exact DiffEntry.read_toRecord (value (h.removed e he))
  · exact ModifiedEntry.read_toRecord (value (h.old e he)) (value (h.new e he))
  · exact DiffEntry.read_toRecord (value (h.unchanged e he))

end Credence
