import Mathlib.Data.List.Forall2
import Credence.Graph.Bare
import Credence.Keyword
import Credence.Proofs.Fields
import Credence.Proofs.Traversal

/-! # Values that say the same

Lists say the same item by item. Nodes say the same where they have one identifier, the same set
of types, properties of the same names and values that say the same under each. A value says the
same as itself unless a number in it is undefined.
-/

namespace Credence
variable {R : Type}

theorem Fields.forall₂_iff {V : Type} (related : V → V → Prop) {a b : Fields V}
    (ordered : Ordered a) :
    List.Forall₂ (fun f g => f.1 = g.1 ∧ related f.2 g.2) a b ↔
      a.names = b.names ∧
        ∀ name v w, a.get? name = some v → b.get? name = some w → related v w := by
  induction a generalizing b with
  | nil => cases b <;> simp [names]
  | cons f rest ih =>
    rcases f with ⟨k, v⟩
    cases b with
    | nil => simp [names]
    | cons g rest' =>
      rcases g with ⟨l, w⟩
      rcases ordered_cons.1 ordered with ⟨above, behind⟩
      have absent : Fields.get? rest k = none := get?_eq_none_of_lt above
      rw [List.forall₂_cons, ih behind]
      simp only [names, List.map_cons, List.cons.injEq, get?_cons]
      constructor
      · rintro ⟨⟨rfl, here⟩, same, tail⟩
        refine ⟨⟨rfl, same⟩, fun name v' w' hv hw => ?_⟩
        split at hv
        · next at_head =>
          rw [if_pos at_head] at hw
          cases hv
          cases hw
          exact here
        · next past_head =>
          rw [if_neg past_head] at hw
          exact tail name v' w' hv hw
      · rintro ⟨⟨rfl, same⟩, each⟩
        refine ⟨⟨rfl, each k v w (if_pos rfl) (if_pos rfl)⟩, same, fun name v' w' hv hw => ?_⟩
        have past_head : name ≠ k := by
          rintro rfl
          rw [absent] at hv
          cases hv
        exact each name v' w' (by rw [if_neg past_head, hv]) (by rw [if_neg past_head, hw])

theorem Fields.names_eq_iff {V : Type} {a b : Fields V} (ha : Ordered a) (hb : Ordered b) :
    a.names = b.names ↔ ∀ name, (a.get? name).isSome = (b.get? name).isSome := by
  constructor
  · intro same name
    rw [Bool.eq_iff_iff, isSome_get?_iff, isSome_get?_iff, same]
  · intro same
    have increasing {c : Fields V} (h : Ordered c) : c.names.Pairwise (· < ·) :=
      List.pairwise_map.2 h
    apply eq_of_pairwise_of_mem_iff String.lt_asymm (increasing ha) (increasing hb)
    intro name
    rw [← isSome_get?_iff, ← isSome_get?_iff, same]

theorem option_rel_iff {α β : Type} {related : α → β → Prop} {x : Option α} {y : Option β} :
    Option.Rel related x y ↔
      x.isSome = y.isSome ∧ ∀ v w, x = some v → y = some w → related v w := by
  cases x <;> cases y <;> simp

/-- Fields in name order are related entry by entry where what is found under each name is. -/
theorem Fields.forall₂_iff_rel {V : Type} (related : V → V → Prop) {a b : Fields V}
    (ha : Ordered a) (hb : Ordered b) :
    List.Forall₂ (fun f g => f.1 = g.1 ∧ related f.2 g.2) a b ↔
      ∀ name, Option.Rel related (a.get? name) (b.get? name) := by
  simp only [forall₂_iff related ha, names_eq_iff ha hb, option_rel_iff, forall_and]

/-- What a node needs for its statements to be told apart by name: properties in name order, none
of them under the reserved name of types. -/
structure Node.NamesApart (n : Node R) : Prop where
  ordered : Fields.Ordered n.properties
  typeless : Keyword.type ∉ n.propertyNames

def Graph.NamesApart (g : Graph R) : Prop := ∀ n ∈ g.nodes, n.NamesApart

variable [Scalar R]

namespace Bare

theorem sameItems_iff_forall₂ {as bs : List (Bare R)} :
    sameItems as bs = true ↔ List.Forall₂ (fun a b => a.same b = true) as bs := by
  induction as generalizing bs with
  | nil => cases bs <;> simp [sameItems]
  | cons a as ih =>
    cases bs with
    | nil => simp [sameItems]
    | cons b bs => simp [sameItems, ih]

theorem sameFields_iff_forall₂ {as bs : List (String × Bare R)} :
    sameFields as bs = true ↔
      List.Forall₂ (fun f g => f.1 = g.1 ∧ f.2.same g.2 = true) as bs := by
  induction as generalizing bs with
  | nil => cases bs <;> simp [sameFields]
  | cons f as ih =>
    cases bs with
    | nil => simp [sameFields]
    | cons g bs => simp [sameFields, ih]

end Bare

namespace PropertyValue

theorem agrees_list_iff {vs ws : List (PropertyValue R)} :
    (list vs).agrees (list ws) = true ↔ List.Forall₂ (fun v w => v.agrees w = true) vs ws := by
  simp only [agrees, bare, Bare.same, bareItems_eq_map, Bare.sameItems_iff_forall₂,
    List.forall₂_map_left_iff, List.forall₂_map_right_iff]

theorem agrees_node_iff_forall₂ {n m : Node R} :
    (node n).agrees (node m) = true ↔ n.id = m.id ∧ sortedNames n.types = sortedNames m.types ∧
      List.Forall₂ (fun f g => f.1 = g.1 ∧ f.2.agrees g.2 = true) n.properties m.properties := by
  rcases n with ⟨id, types, confidence, properties⟩
  rcases m with ⟨id', types', confidence', properties'⟩
  simp only [agrees, bare, Node.bare, Bare.same, Bool.and_eq_true, beq_iff_eq, bareFields_eq_map,
    Bare.sameFields_iff_forall₂, List.forall₂_map_left_iff, List.forall₂_map_right_iff, and_assoc]

end PropertyValue

theorem sortedNames_eq_iff {words words' : List String} :
    sortedNames words = sortedNames words' ↔ ∀ word, word ∈ words ↔ word ∈ words' := by
  refine ⟨fun same word => ?_, sortedNames_congr⟩
  rw [← mem_sortedNames, same, mem_sortedNames]

/-- Nodes say the same where identifier, set of types, names and the values under each name are
the same. -/
theorem Node.NamesApart.agrees_iff {n m : Node R} (h : n.NamesApart) :
    (PropertyValue.node n).agrees (.node m) = true ↔
      n.id = m.id ∧ (∀ t, t ∈ n.types ↔ t ∈ m.types) ∧ n.propertyNames = m.propertyNames ∧
        ∀ p v w, n.get? p = some v → m.get? p = some w → v.agrees w = true := by
  rw [PropertyValue.agrees_node_iff_forall₂, sortedNames_eq_iff,
    Fields.forall₂_iff (fun v w => v.agrees w = true) h.ordered]
  rfl

theorem PropertyValue.agrees_ofText {s t : String} :
    (ofText s : PropertyValue R).agrees (ofText t) = (s == t) := by
  simp only [ofText, agrees, bare, Bare.same, Literal.same]

theorem Node.rel_typesValue?_iff {n m : Node R} :
    Option.Rel (fun v w => v.agrees w = true) n.typesValue? m.typesValue? ↔
      sortedNames n.types = sortedNames m.types := by
  have texts (s t : List String) : (PropertyValue.list (s.map .ofText)).agrees
      (.list (t.map (.ofText (R := R)))) = true ↔ s = t := by
    simp only [PropertyValue.agrees_list_iff, List.forall₂_map_left_iff,
      List.forall₂_map_right_iff, PropertyValue.agrees_ofText, beq_iff_eq, List.forall₂_eq_eq_eq]
  have unlike (s : String) (vs : List (PropertyValue R)) :
      (PropertyValue.ofText s).agrees (.list vs) = false ∧
        (PropertyValue.list vs).agrees (.ofText s) = false := by
    simp only [PropertyValue.ofText, PropertyValue.agrees, PropertyValue.bare, Bare.same, and_self]
  unfold typesValue?
  -- no type, one type or several, on either side
  rcases sortedNames n.types with _ | ⟨s, _ | ⟨s', ss⟩⟩ <;>
    rcases sortedNames m.types with _ | ⟨t, _ | ⟨t', ts⟩⟩ <;>
    simp [PropertyValue.agrees_ofText, texts, unlike, -List.map_cons]

/-- No number is undefined: each scalar equals itself, as all do that a document can hold. -/
def Literal.Definite (l : Literal R) : Prop := ∀ x, l = .number (.scalar x) → (x == x) = true

inductive PropertyValue.Definite : PropertyValue R → Prop
  | literal {l : Literal R} (definite : l.Definite) : Definite (.literal l)
  | annotated {a : Assertion R} (definite : a.value.Definite) : Definite (.annotated a)
  | node {n : Node R} (values : ∀ f ∈ n.properties, Definite f.2) : Definite (.node n)
  | list {items : List (PropertyValue R)} (parts : ∀ v ∈ items, Definite v) : Definite (.list items)

def Graph.Definite (g : Graph R) : Prop := ∀ n ∈ g.nodes, (PropertyValue.node n).Definite

theorem Literal.same_self {l : Literal R} (h : l.Definite) : l.same l = true := by
  cases l with
  | boolean b => simp [same]
  | text s => simp [same]
  | number x =>
    cases x with
    | whole n => simp [same, Number.sameValue]
    | scalar x => exact h x rfl

namespace PropertyValue

/-- A value without undefined numbers says the same as itself. -/
theorem agrees_self {v : PropertyValue R} (h : v.Definite) : v.agrees v = true := by
  induction h with
  | literal definite => exact Literal.same_self definite
  | annotated definite => exact Literal.same_self definite
  | node values ih =>
    rw [agrees_node_iff_forall₂]
    exact ⟨rfl, rfl, List.forall₂_same.2 (fun f hf => ⟨rfl, ih f hf⟩)⟩
  | list parts ih =>
    rw [agrees_list_iff]
    exact List.forall₂_same.2 ih

end PropertyValue
end Credence
