import Credence.Proofs.Diff.Entries
import Credence.Proofs.Graph.Sameness
import Credence.Scalar.Binary64

/-! # Empty differences

A difference is empty where both graphs identify the same nodes and these state, name by name,
values that say the same. Where no property has the reserved name of types these are the nodes that
say the same as values. A graph without undefined numbers differs in nothing from itself.
-/

namespace Credence
variable {R : Type}

theorem Graph.mem_of_node? {g : Graph R} {id : String} {n : Node R} (h : g.node? id = some n) :
    n ∈ g.nodes ∧ n.id = some id :=
  ⟨List.mem_of_find?_eq_some h, by simpa using List.find?_some h⟩

theorem Graph.exists_node?_iff {g : Graph R} {id : String} :
    (∃ n, g.node? id = some n) ↔ ∃ n ∈ g.nodes, n.id = some id := by
  rw [← Option.isSome_iff_exists, node?, List.find?_isSome]
  simp

theorem GraphDiff.isEmpty_eq_true_iff {d : GraphDiff R} :
    d.isEmpty = true ↔ (∀ e, e ∉ d.added) ∧ (∀ e, e ∉ d.removed) ∧ ∀ e, e ∉ d.modified := by
  simp only [isEmpty, Bool.and_eq_true, List.isEmpty_iff, List.eq_nil_iff_forall_not_mem, and_assoc]

variable [Scalar R]

/-- Two nodes state the same under every name, types included. -/
def Node.StatesSame (n m : Node R) : Prop :=
  ∀ p, Option.Rel (fun v w => v.agrees w = true) (n.facts.get? p) (m.facts.get? p)

namespace Node

/-- Types and properties are stated apart from each other. -/
theorem NamesApart.statesSame_iff_rel {n m : Node R} (hn : n.NamesApart) (hm : m.NamesApart) :
    n.StatesSame m ↔
      Option.Rel (fun v w => v.agrees w = true) n.typesValue? m.typesValue? ∧
        ∀ p, Option.Rel (fun v w => v.agrees w = true) (n.get? p) (m.get? p) := by
  constructor
  · intro states
    refine ⟨?_, fun p => ?_⟩
    · rw [← n.get?_facts_type, ← m.get?_facts_type]
      exact states Keyword.type
    · by_cases isType : p = Keyword.type
      · have absent : n.get? p = none := Fields.get?_eq_none_iff.2 (isType ▸ hn.typeless)
        have absent' : m.get? p = none := Fields.get?_eq_none_iff.2 (isType ▸ hm.typeless)
        rw [absent, absent']
        exact .none
      · rw [← n.get?_facts_of_ne isType, ← m.get?_facts_of_ne isType]
        exact states p
  · rintro ⟨types, properties⟩ p
    by_cases isType : p = Keyword.type
    · rw [isType, n.get?_facts_type, m.get?_facts_type]
      exact types
    · rw [n.get?_facts_of_ne isType, m.get?_facts_of_ne isType]
      exact properties p

/-- Nodes with one identifier state the same exactly where they say the same as values. -/
theorem NamesApart.statesSame_iff {n m : Node R} (hn : n.NamesApart) (hm : m.NamesApart)
    (identified : n.id = m.id) :
    n.StatesSame m ↔ (PropertyValue.node n).agrees (.node m) = true := by
  rw [hn.statesSame_iff_rel hm, rel_typesValue?_iff, PropertyValue.agrees_node_iff_forall₂,
    Fields.forall₂_iff_rel (fun v w => v.agrees w = true) hn.ordered hm.ordered]
  exact (and_iff_right identified).symm

end Node

namespace Graph
variable {a b : Graph R}

theorem isEmpty_diff_iff : (a.diff b).isEmpty = true ↔
    (∀ id, (a.node? id).isSome = (b.node? id).isSome) ∧
      ∀ id n m, a.node? id = some n → b.node? id = some m → n.StatesSame m := by
  rw [GraphDiff.isEmpty_eq_true_iff]
  constructor
  · rintro ⟨nothing_added, nothing_removed, nothing_modified⟩
    constructor
    case left =>
      intro id
      cases hold : a.node? id with
      | none =>
        cases hnew : b.node? id with
        | none => rfl
        | some new =>
          exact absurd (mem_added_iff.2 ⟨new, hnew, .inl ⟨hold, rfl, rfl⟩⟩)
            (nothing_added ⟨id, none, .node new⟩)
      | some old =>
        cases hnew : b.node? id with
        | none =>
          exact absurd (mem_removed_iff.2 ⟨old, hold, .inl ⟨hnew, rfl, rfl⟩⟩)
            (nothing_removed ⟨id, none, .node old⟩)
        | some new => rfl
    case right =>
      intro id old new hold hnew p
      cases hv : old.facts.get? p with
      | none =>
        cases hw : new.facts.get? p with
        | none => exact .none
        | some w =>
          exact absurd (mem_added_iff.2 ⟨new, hnew, .inr ⟨old, p, hold, rfl, hv, hw⟩⟩)
            (nothing_added ⟨id, some p, w⟩)
      | some v =>
        cases hw : new.facts.get? p with
        | none =>
          exact absurd (mem_removed_iff.2 ⟨old, hold, .inr ⟨new, p, hnew, rfl, hv, hw⟩⟩)
            (nothing_removed ⟨id, some p, v⟩)
        | some w =>
          refine .some ?_
          by_contra differ
          exact nothing_modified ⟨id, p, v, w⟩ (mem_modified_iff.2
            ⟨old, new, hold, hnew, hv, hw, Bool.eq_false_iff.2 differ⟩)
  · rintro ⟨identified, states⟩
    refine ⟨fun e he => ?_, fun e he => ?_, fun e he => ?_⟩
    · rcases mem_added_iff.1 he with ⟨new, hnew, ⟨absent, -, -⟩ | ⟨old, p, hold, -, hv, hw⟩⟩
      · have same := identified e.nodeId
        rw [absent, hnew] at same
        cases same
      · have same := states e.nodeId old new hold hnew p
        rw [hv, hw] at same
        cases same
    · rcases mem_removed_iff.1 he with ⟨old, hold, ⟨absent, -, -⟩ | ⟨new, p, hnew, -, hv, hw⟩⟩
      · have same := identified e.nodeId
        rw [absent, hold] at same
        cases same
      · have same := states e.nodeId old new hold hnew p
        rw [hv, hw] at same
        cases same
    · rcases mem_modified_iff.1 he with ⟨old, new, hold, hnew, hv, hw, differ⟩
      have same := states e.nodeId old new hold hnew e.property
      rw [hv, hw] at same
      cases same with
      | some same => exact Bool.false_ne_true (differ.symm.trans same)

theorem NamesApart.isEmpty_diff_iff (ha : a.NamesApart) (hb : b.NamesApart) :
    (a.diff b).isEmpty = true ↔
      (∀ id, (∃ n ∈ a.nodes, n.id = some id) ↔ ∃ n ∈ b.nodes, n.id = some id) ∧
        ∀ id n m, a.node? id = some n → b.node? id = some m →
          (PropertyValue.node n).agrees (.node m) = true := by
  rw [Graph.isEmpty_diff_iff]
  refine and_congr (forall_congr' fun id => ?_) (forall_congr' fun id => ?_)
  · rw [Bool.eq_iff_iff, Option.isSome_iff_exists, Option.isSome_iff_exists, exists_node?_iff,
      exists_node?_iff]
  · refine forall₂_congr fun n m => forall₂_congr fun hn hm => ?_
    rcases mem_of_node? hn with ⟨member, known⟩
    rcases mem_of_node? hm with ⟨member', known'⟩
    exact (ha n member).statesSame_iff (hb m member') (known.trans known'.symm)

/-- A difference is empty exactly where the two graphs have the same identifiers and the first
nodes with each say the same: they have the same types, the same names and values that say the same
under each. A graph without undefined numbers has an empty difference from itself. -/
theorem diff_isEmpty_iff_same_facts (ha : a.NamesApart) (hb : b.NamesApart) :
    ((a.diff b).isEmpty = true ↔
      (∀ id, (∃ n ∈ a.nodes, n.id = some id) ↔ ∃ n ∈ b.nodes, n.id = some id) ∧
        ∀ id n m, a.node? id = some n → b.node? id = some m →
          (PropertyValue.node n).agrees (.node m) = true) ∧
      (∀ n ∈ a.nodes, ∀ m ∈ b.nodes, (PropertyValue.node n).agrees (.node m) = true ↔
        n.id = m.id ∧ (∀ t, t ∈ n.types ↔ t ∈ m.types) ∧ n.propertyNames = m.propertyNames ∧
          ∀ p v w, n.get? p = some v → m.get? p = some w → v.agrees w = true) ∧
      (a.Definite → (a.diff a).isEmpty = true) := by
  refine ⟨ha.isEmpty_diff_iff hb, fun n hn m _ => (ha n hn).agrees_iff, fun definite => ?_⟩
  refine (ha.isEmpty_diff_iff ha).2 ⟨fun id => Iff.rfl, fun id n m hn hm => ?_⟩
  obtain rfl : n = m := Option.some.inj (hn.symm.trans hm)
  exact PropertyValue.agrees_self (definite n (mem_of_node? hn).1)

def thing (types : List String) (number : PropertyValue Float) : Graph Float :=
  .single ⟨some "x", types, none, [("p", number), ("q", .node ⟨none, ["T"], some 0.5, []⟩)]⟩

/-- Neither a repeated type nor the spelling of a number nor a confidence is a difference. -/
theorem diff_isEmpty_iff_same_facts_thing :
    let first := thing ["B", "A", "B"] (.literal (.number (.scalar 2.0)))
    let second := thing ["A", "B"] (.annotated ⟨.number (.whole 2), some 0.9, none, none, none, []⟩)
    (first.diff second).isEmpty = true ∧ (first.diff first).isEmpty = true := by
  have apart (types : List String) (v : PropertyValue Float) : (thing types v).NamesApart := by
    intro n hn
    obtain rfl := List.mem_singleton.1 hn
    exact ⟨List.pairwise_pair.2 (show "p" < "q" by decide),
      show Keyword.type ∉ ["p", "q"] by decide⟩
  intro first second
  obtain ⟨empty_iff, -, self⟩ :=
    diff_isEmpty_iff_same_facts (a := first) (b := second) (apart _ _) (apart _ _)
  refine ⟨empty_iff.2 ⟨fun id => ?_, fun id n m hn hm => ?_⟩, self ?_⟩
  · simp [first, second, thing, single, ofNodes]
  · obtain rfl := List.mem_singleton.1 (mem_of_node? hn).1
    obtain rfl := List.mem_singleton.1 (mem_of_node? hm).1
    decide +kernel
  · intro n hn
    obtain rfl := List.mem_singleton.1 hn
    refine .node (List.forall_mem_cons.2 ⟨.literal ?_, List.forall_mem_singleton.2 (.node ?_)⟩)
    · rintro x ⟨⟩
      decide +kernel
    · simp

end Graph
end Credence
