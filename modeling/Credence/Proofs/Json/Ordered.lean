import Credence.Json.Reader

/-! # Documents in name order

The fields of every object of a document are in name order, whatever the order in which a text
lists them. Whether they are can be decided.
-/

namespace Credence.Json
variable {R : Type}

/-- Every object, at any depth, has its fields in name order. -/
inductive Ordered : Json R → Prop
  | null : Ordered .null
  | bool (b : Bool) : Ordered (.bool b)
  | number (n : Number R) : Ordered (.number n)
  | text (s : String) : Ordered (.text s)
  | array {items : List (Json R)} (parts : ∀ j ∈ items, Ordered j) : Ordered (.array items)
  | object {fields : Fields (Json R)} (names : Fields.Ordered fields)
      (parts : ∀ f ∈ fields, Ordered f.2) : Ordered (.object fields)

section
variable {fields : Fields (Json R)}

theorem Ordered.insert (h : (Json.object fields).Ordered) (name : String) {value : Json R}
    (hv : value.Ordered) : (Json.object (fields.insert name value)).Ordered := by
  cases h with
  | object names parts =>
    refine .object (Fields.ordered_insert names name value) (fun f hf => ?_)
    rcases Fields.mem_insert hf with rfl | hf
    · exact hv
    · exact parts f hf

theorem Ordered.insert? (h : (Json.object fields).Ordered) (name : String)
    {value : Option (Json R)} (hv : ∀ j, value = some j → j.Ordered) :
    (Json.object (fields.insert? name value)).Ordered := by
  cases value with
  | none => exact h
  | some j => exact h.insert name (hv j rfl)

theorem Ordered.overlay (h : (Json.object fields).Ordered) {top : List (String × Json R)}
    (parts : ∀ f ∈ top, f.2.Ordered) : (Json.object (Fields.overlay fields top)).Ordered := by
  induction top generalizing fields with
  | nil => exact h
  | cons f rest ih =>
    have here := h.insert f.1 (parts f List.mem_cons_self)
    exact ih here (fun g hg => parts g (List.mem_cons_of_mem f hg))

theorem Ordered.empty : (Json.object ([] : Fields (Json R))).Ordered :=
  .object Fields.ordered_nil (by simp)

theorem Ordered.of_map {α : Type} {form : α → Json R} (formed : ∀ a, (form a).Ordered)
    {part : Option α} : ∀ j, part.map form = some j → j.Ordered := by
  intro j h
  rcases Option.map_eq_some_iff.1 h with ⟨a, -, rfl⟩
  exact formed a

end

theorem ordered_ofFields {fields : List (String × Json R)} (parts : ∀ f ∈ fields, f.2.Ordered) :
    (ofFields fields).Ordered := Ordered.empty.overlay parts

/-- What holds of a value if it holds of its parts holds of every value. -/
@[elab_as_elim]
theorem induction {P : Json R → Prop} (null : P .null) (bool : ∀ b, P (.bool b))
    (number : ∀ n, P (.number n)) (text : ∀ s, P (.text s))
    (array : ∀ items, (∀ item ∈ items, P item) → P (.array items))
    (object : ∀ fields, (∀ f ∈ fields, P f.2) → P (.object fields)) (document : Json R) :
    P document :=
  @Json.rec R P (fun items => ∀ item ∈ items, P item)
    (fun fields => ∀ f ∈ fields, P f.2) (fun f => P f.2) null bool number text array object
    (by simp) (fun _ _ here behind => List.forall_mem_cons.2 ⟨here, behind⟩)
    (by simp) (fun _ _ here behind => List.forall_mem_cons.2 ⟨here, behind⟩)
    (fun _ _ here => here) document

instance {V : Type} (fields : Fields V) : Decidable (Fields.Ordered fields) :=
  inferInstanceAs (Decidable (List.Pairwise _ _))

mutual

def isOrdered : Json R → Bool
  | .array items => areOrdered items
  | .object fields => decide (Fields.Ordered fields) && haveOrdered fields
  | .null | .bool _ | .number _ | .text _ => true

def areOrdered : List (Json R) → Bool
  | [] => true
  | item :: rest => item.isOrdered && areOrdered rest

def haveOrdered : List (String × Json R) → Bool
  | [] => true
  | (_, value) :: rest => value.isOrdered && haveOrdered rest

end

theorem areOrdered_iff {items : List (Json R)} :
    areOrdered items = true ↔ ∀ item ∈ items, item.isOrdered = true := by
  induction items with
  | nil => simp [areOrdered]
  | cons item rest ih => simp [areOrdered, ih]

theorem haveOrdered_iff {fields : List (String × Json R)} :
    haveOrdered fields = true ↔ ∀ f ∈ fields, f.2.isOrdered = true := by
  induction fields with
  | nil => simp [haveOrdered]
  | cons f rest ih => simp [haveOrdered, ih]

theorem ordered_array_iff {items : List (Json R)} :
    (Json.array items).Ordered ↔ ∀ item ∈ items, item.Ordered :=
  ⟨fun h => by cases h with | array parts => exact parts, .array⟩

theorem ordered_object_iff {fields : Fields (Json R)} :
    (Json.object fields).Ordered ↔ Fields.Ordered fields ∧ ∀ f ∈ fields, f.2.Ordered :=
  ⟨fun h => by cases h with | object names parts => exact ⟨names, parts⟩, fun h => .object h.1 h.2⟩

theorem isOrdered_iff {document : Json R} : document.isOrdered = true ↔ document.Ordered := by
  induction document using Json.induction with
  | null => exact iff_of_true rfl .null
  | bool b => exact iff_of_true rfl (.bool b)
  | number n => exact iff_of_true rfl (.number n)
  | text s => exact iff_of_true rfl (.text s)
  | array items ih =>
    rw [isOrdered, areOrdered_iff, ordered_array_iff]
    exact forall₂_congr ih
  | object fields ih =>
    rw [isOrdered, Bool.and_eq_true, decide_eq_true_iff, haveOrdered_iff, ordered_object_iff]
    exact and_congr_right (fun _ => forall₂_congr ih)

instance (document : Json R) : Decidable document.Ordered := decidable_of_iff _ isOrdered_iff

variable [Scalar R] [NumberText R]

/-- What is read within a budget is in name order. -/
structure ReadsOrdered (R : Type) [Scalar R] [NumberText R] (budget : Nat) : Prop where
  value : ∀ {cs rest} {j : Json R}, readValue budget cs = some (j, rest) → j.Ordered
  items : ∀ {cs rest} {js : List (Json R)}, readItems budget cs = some (js, rest) →
    ∀ j ∈ js, j.Ordered
  fields : ∀ {cs rest} {fs : List (String × Json R)}, readFields budget cs = some (fs, rest) →
    ∀ f ∈ fs, f.2.Ordered

namespace ReadsOrdered
variable {budget : Nat}

theorem succ_value (h : ReadsOrdered R budget) {cs rest : List Char} {j : Json R}
    (read : readValue (budget + 1) cs = some (j, rest)) : j.Ordered := by
  rw [readValue] at read
  split at read
  · cases read
    exact .null
  · cases read
    exact .bool true
  · cases read
    exact .bool false
  · rcases Option.bind_eq_some_iff.1 read with ⟨s, -, read⟩
    cases read
    exact .text _
  · split at read
    · cases read
      exact .array (by simp)
    · rcases Option.bind_eq_some_iff.1 read with ⟨⟨js, behind⟩, found, read⟩
      cases read
      exact .array (h.items found)
  · split at read
    · cases read
      exact .empty
    · rcases Option.bind_eq_some_iff.1 read with ⟨⟨fs, behind⟩, found, read⟩
      cases read
      exact ordered_ofFields (h.fields found)
  · rcases Option.map_eq_some_iff.1 read with ⟨⟨n, behind⟩, -, read⟩
    cases read
    exact .number n

theorem succ_items (h : ReadsOrdered R budget) {cs rest : List Char} {js : List (Json R)}
    (read : readItems (budget + 1) cs = some (js, rest)) : ∀ j ∈ js, j.Ordered := by
  rw [readItems] at read
  rcases Option.bind_eq_some_iff.1 read with ⟨⟨j, behind⟩, first, read⟩
  dsimp only at read
  split at read
  · cases read
    exact List.forall_mem_singleton.2 (h.value first)
  · rcases Option.bind_eq_some_iff.1 read with ⟨⟨js', end'⟩, others, read⟩
    cases read
    exact List.forall_mem_cons.2 ⟨h.value first, h.items others⟩
  · cases read

theorem succ_fields (h : ReadsOrdered R budget) {cs rest : List Char}
    {fs : List (String × Json R)} (read : readFields (budget + 1) cs = some (fs, rest)) :
    ∀ f ∈ fs, f.2.Ordered := by
  rw [readFields] at read
  split at read
  · rcases Option.bind_eq_some_iff.1 read with ⟨⟨name, behind⟩, -, read⟩
    dsimp only at read
    split at read
    · rcases Option.bind_eq_some_iff.1 read with ⟨⟨j, behind'⟩, first, read⟩
      dsimp only at read
      split at read
      · cases read
        exact List.forall_mem_singleton.2 (h.value first)
      · rcases Option.bind_eq_some_iff.1 read with ⟨⟨fs', end'⟩, others, read⟩
        cases read
        exact List.forall_mem_cons.2 ⟨h.value first, h.fields others⟩
      · cases read
    · cases read
  · cases read

end ReadsOrdered

theorem readsOrdered (budget : Nat) : ReadsOrdered R budget := by
  induction budget with
  | zero =>
    constructor
    case value => simp [readValue]
    case items => simp [readItems]
    case fields => simp [readFields]
  | succ budget ih => exact ⟨ih.succ_value, ih.succ_items, ih.succ_fields⟩

/-- The document that a text spells is in name order. -/
theorem ordered_of_ofText? {s : String} {document : Json R} (h : ofText? s = some document) :
    document.Ordered := by
  unfold ofText? at h
  dsimp only at h
  split at h
  · next value rest read =>
    split at h
    · cases h
      exact (readsOrdered _).value read
    · cases h
  · cases h

end Credence.Json
