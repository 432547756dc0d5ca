import Credence.Proofs.Graph.ReadBack
import Credence.Proofs.Scalar.Binary64

/-! # The documents that are read

A property value is read from exactly those documents that follow a grammar. Objects take two
forms. The names of a value object are all reserved, and null stands for a part of it that is left
out. An object that makes a node has properties under all other names, and null is neither a
property value nor a part of a node.
-/

namespace Credence
variable {R : Type}

namespace Json

def IsLiteral : Json R → Prop
  | .bool _ | .number _ | .text _ => True
  | .null | .array _ | .object _ => False

def IsText : Json R → Prop
  | .text _ => True
  | _ => False

def IsTypes : Json R → Prop
  | .text _ => True
  | .array items => ∀ item ∈ items, item.IsText
  | _ => False

def IsInstant : Json R → Prop
  | .text s => ∃ t, Instant.parse s = .ok t
  | _ => False

variable [Scalar R]

def IsScore : Json R → Prop
  | .number n => Scalar.InUnit n.toScalar
  | _ => False

structure ValueObject (fields : Fields (Json R)) : Prop where
  value : ∃ v, fields.get? Keyword.value = some v ∧ v.IsLiteral
  confidence : ∀ v, fields.get? Keyword.confidence = some v → v = .null ∨ v.IsScore
  source : ∀ v, fields.get? Keyword.source = some v → v = .null ∨ v.IsText
  extractedAt : ∀ v, fields.get? Keyword.extractedAt = some v → v = .null ∨ v.IsInstant
  method : ∀ v, fields.get? Keyword.method = some v → v = .null ∨ v.IsText
  others : ∀ f ∈ fields, f.1 ∉ Assertion.partNames → Keyword.isKeyword f.1 = true

/-- What the fields of a node say about the node itself. -/
structure NodeHead (fields : Fields (Json R)) : Prop where
  unmarked : fields.get? Keyword.value = none
  id : ∀ v, fields.get? Keyword.id = some v → v.IsText
  types : ∀ v, fields.get? Keyword.type = some v → v.IsTypes
  confidence : ∀ v, fields.get? Keyword.confidence = some v → v.IsScore

/-- The grammar of property values. -/
inductive Legible : Json R → Prop
  | literal {document : Json R} (literal : document.IsLiteral) : Legible document
  | array {items : List (Json R)} (parts : ∀ item ∈ items, Legible item) : Legible (.array items)
  | valueObject {fields : Fields (Json R)} (object : ValueObject fields) :
      Legible (.object fields)
  | node {fields : Fields (Json R)} (head : NodeHead fields)
      (properties : ∀ f ∈ fields, ¬ Node.Reserved f.1 → Legible f.2) : Legible (.object fields)

theorem legible_array_iff {items : List (Json R)} :
    (Json.array items).Legible ↔ ∀ item ∈ items, item.Legible := by
  refine ⟨fun h => ?_, .array⟩
  cases h with
  | literal none => cases none
  | array parts => exact parts

theorem legible_object_iff {fields : Fields (Json R)} :
    (Json.object fields).Legible ↔ ValueObject fields ∨
      NodeHead fields ∧ ∀ f ∈ fields, ¬ Node.Reserved f.1 → f.2.Legible := by
  constructor
  · intro h
    cases h with
    | literal none => cases none
    | valueObject object => exact .inl object
    | node head properties => exact .inr ⟨head, properties⟩
  · rintro (object | ⟨head, properties⟩)
    · exact .valueObject object
    · exact .node head properties

end Json

theorem Literal.exists_read_iff {v : Json R} : (∃ l, Literal.read v = .ok l) ↔ v.IsLiteral := by
  cases v <;> simp [Literal.read, Literal.ofJson?, Json.IsLiteral]

theorem Record.exists_readText_iff {v : Json R} : (∃ s, readText v = .ok s) ↔ v.IsText := by
  cases v <;> simp [readText, Json.IsText]

theorem Assertion.exists_readInstant_iff {v : Json R} :
    (∃ t, readInstant v = .ok t) ↔ v.IsInstant := by
  cases v <;> simp [readInstant, mapError_eq_ok_iff, Json.IsInstant]

section
variable {α : Type} {fields : Fields (Json R)} {name : String}
  {read : Json R → Except (RecordFault R) α} {kind : Json R → Prop}

/-- A part of a record that may be left out is read and passes a check where it is left out or
null, and where its value is of the kind that does so. -/
theorem Record.exists_omissible_iff {P : α → Prop}
    (reads : ∀ v, (∃ x, read v = .ok x ∧ P x) ↔ kind v) :
    (∃ part, omissible fields name (readNullable read) none = .ok part ∧
      ∀ x, part = some x → P x) ↔
    ∀ v, fields.get? name = some v → v = .null ∨ kind v := by
  simp only [omissible_eq_ok_iff, ← reads]
  constructor
  · rintro ⟨part, ⟨null, rfl⟩ | ⟨v, x, found, -, read, rfl⟩, holds⟩ v' found'
    · exact .inl (null v' found')
    · obtain rfl : v = v' := Option.some.inj (found.symm.trans found')
      exact .inr ⟨x, read, holds x rfl⟩
  · intro h
    by_cases null : ∀ v, fields.get? name = some v → v = .null
    · exact ⟨none, .inl ⟨null, rfl⟩, by simp⟩
    · push Not at null
      obtain ⟨v, found, other⟩ := null
      obtain ⟨x, read, holds⟩ := (h v found).resolve_left other
      exact ⟨some x, .inr ⟨v, x, found, other, read, rfl⟩, by simpa using holds⟩

theorem Record.exists_omissible_iff_of_kind (reads : ∀ v, (∃ x, read v = .ok x) ↔ kind v) :
    (∃ part, omissible fields name (readNullable read) none = .ok part) ↔
      ∀ v, fields.get? name = some v → v = .null ∨ kind v := by
  have unchecked : ∀ v, (∃ x, read v = .ok x ∧ True) ↔ kind v := by simpa using reads
  simpa using exists_omissible_iff unchecked

end

section
variable [Scalar R]

theorem Record.exists_readScalar_iff {v : Json R} :
    (∃ c, readScalar v = .ok c ∧ Scalar.InUnit c) ↔ v.IsScore := by
  cases v <;> simp [readScalar, Json.IsScore]

theorem exists_readConfidence_iff {v : Json R} : (∃ c, readConfidence v = .ok c) ↔ v.IsScore := by
  cases v with
  | number n =>
    simp [readConfidence, Json.toScalar?, Json.IsScore, bind_eq_ok_iff, Unique.exists_iff,
      checkScore_eq_ok_iff, pure, Except.pure]
  | null | bool b | text s | array items | object fields =>
    simp [readConfidence, Json.toScalar?, Json.IsScore]

end

theorem exists_readId_iff {v : Json R} : (∃ id, readId v = .ok id) ↔ v.IsText := by
  cases v <;> simp [readId, Json.IsText]

theorem exists_readTypes_iff {v : Json R} : (∃ types, readTypes v = .ok types) ↔ v.IsTypes := by
  cases v with
  | array items =>
    rw [readTypes, exists_mapM_iff]
    refine forall₂_congr (fun item _ => ?_)
    cases item <;> simp [Json.IsText]
  | null | bool b | number n | text s | object fields => simp [readTypes, Json.IsTypes]

/-- Something that may be missing is read where it is missing or of the kind that is read. -/
theorem exists_elim_iff_of_kind {ε α β : Type} {found : Option α} {absent : β}
    {read : α → Except ε β} {kind : α → Prop} (reads : ∀ v, (∃ x, read v = .ok x) ↔ kind v) :
    (∃ part, found.elim (.ok absent) read = .ok part) ↔ ∀ v, found = some v → kind v := by
  cases found <;> simp [reads]

variable [Scalar R]

namespace Assertion

theorem exists_readFields_iff {fields : Fields (Json R)} (ordered : Fields.Ordered fields) :
    (∃ a, readFields fields = .ok a) ↔ Json.ValueObject fields := by
  have confidences := @Record.exists_omissible_iff R R fields
    Keyword.confidence _ _ _ (fun v => Record.exists_readScalar_iff (v := v))
  have texts (name : String) := @Record.exists_omissible_iff_of_kind R String fields name _ _
    (fun v => Record.exists_readText_iff (v := v))
  have instants := @Record.exists_omissible_iff_of_kind R Instant fields Keyword.extractedAt _ _
    (fun v => exists_readInstant_iff (v := v))
  simp only [readFields_eq_ok_iff]
  constructor
  · rintro ⟨a, h⟩
    constructor
    case value =>
      obtain ⟨v, found, read⟩ := Record.required_eq_ok_iff.1 h.value
      exact ⟨v, found, Literal.exists_read_iff.1 ⟨a.value, read⟩⟩
    case confidence =>
      exact confidences.1 ⟨a.confidence, h.confidence, validate_eq_ok_iff.1 h.valid⟩
    case source => exact (texts _).1 ⟨a.source, h.source⟩
    case extractedAt => exact instants.1 ⟨a.extractedAt, h.extractedAt⟩
    case method => exact (texts _).1 ⟨a.method, h.method⟩
    case others =>
      intro f hf other
      exact h.keyword f (h.keywords_eq ▸ mem_otherFields_iff.2 ⟨hf, other⟩)
  · intro h
    obtain ⟨v, found, literal⟩ := h.value
    obtain ⟨value, read⟩ := Literal.exists_read_iff.2 literal
    obtain ⟨confidence, hc, score⟩ := confidences.2 h.confidence
    obtain ⟨source, hs⟩ := (texts _).2 h.source
    obtain ⟨extractedAt, he⟩ := instants.2 h.extractedAt
    obtain ⟨method, hm⟩ := (texts _).2 h.method
    have keyword : ∀ f ∈ otherFields fields, Keyword.isKeyword f.1 = true := by
      intro f hf
      obtain ⟨hf, other⟩ := mem_otherFields_iff.1 hf
      exact h.others f hf other
    exact ⟨⟨value, confidence, source, extractedAt, method, otherFields fields⟩,
      reads_of_parts ordered (Record.required_eq_ok_iff.2 ⟨v, found, read⟩) hc hs he hm rfl keyword
        score⟩

end Assertion

theorem Node.exists_ofFields_iff {fields : Fields (Json R)} (ordered : Fields.Ordered fields) :
    (∃ n, ofFields fields = .ok n) ↔
      (∀ v, fields.get? Keyword.id = some v → v.IsText) ∧
      (∀ v, fields.get? Keyword.type = some v → v.IsTypes) ∧
      (∀ v, fields.get? Keyword.confidence = some v → v.IsScore) ∧
      ∀ f ∈ fields, ¬ Reserved f.1 → ∃ v, PropertyValue.ofJson f.2 = .ok v := by
  have reads : (∃ n, ofFields fields = .ok n) ↔ ∃ n, Reads fields n :=
    exists_congr (fun n => ⟨reads_of_ofFields, Reads.ofFields_eq_ok ordered⟩)
  have ids : (∃ id, (fields.get? Keyword.id).elim (.ok none)
      (fun value => (readId value).map some) = .ok id) ↔ _ :=
    exists_elim_iff_of_kind (fun v => exists_map_iff.trans exists_readId_iff)
  have types : (∃ types, (fields.get? Keyword.type).elim (.ok []) readTypes = .ok types) ↔ _ :=
    exists_elim_iff_of_kind (fun v => exists_readTypes_iff)
  have confidences : (∃ c, (fields.get? Keyword.confidence).elim (.ok none)
      (fun value => (readConfidence value).map some) = .ok c) ↔ _ :=
    exists_elim_iff_of_kind (fun v => exists_map_iff.trans exists_readConfidence_iff)
  have properties : (∀ f ∈ fields, ¬ Reserved f.1 → ∃ v, PropertyValue.ofJson f.2 = .ok v) ↔
      ∀ f ∈ fields.filter (fun f => decide (¬ Reserved f.1)),
        ∃ p : String × PropertyValue R, p.1 = f.1 ∧ PropertyValue.ofJson f.2 = .ok p.2 := by
    simp
  -- Each part is read apart from the others, so the parts of a node are found one by one.
  rw [reads, ← ids, ← types, ← confidences, properties]
  constructor
  · rintro ⟨n, h⟩
    refine ⟨⟨n.id, h.id⟩, ⟨n.types, h.types⟩, ⟨n.confidence, h.confidence⟩, fun f hf => ?_⟩
    obtain ⟨p, -, spelled⟩ := exists_mem_of_forall₂ h.properties hf
    exact ⟨p, spelled⟩
  · rintro ⟨⟨id, hid⟩, ⟨types, htypes⟩, ⟨confidence, hconfidence⟩, h⟩
    obtain ⟨properties, hproperties⟩ := exists_forall₂ h
    exact ⟨⟨id, types, confidence, properties⟩, hid, htypes, hconfidence, hproperties⟩

namespace PropertyValue

theorem exists_ofJson_object_iff {fields : Fields (Json R)} (ordered : Fields.Ordered fields) :
    (∃ v, ofJson (.object fields) = .ok v) ↔ Json.ValueObject fields ∨
      Json.NodeHead fields ∧ ∀ f ∈ fields, ¬ Node.Reserved f.1 → ∃ v, ofJson f.2 = .ok v := by
  simp only [ofJson_object_eq_ok_iff]
  constructor
  · rintro ⟨v, ⟨-, a, read, -⟩ | ⟨unmarked, n, read, -⟩⟩
    · exact .inl ((Assertion.exists_readFields_iff ordered).1 ⟨a, read⟩)
    · obtain ⟨id, types, confidence, properties⟩ := (Node.exists_ofFields_iff ordered).1 ⟨n, read⟩
      exact .inr ⟨⟨by simpa [Fields.has] using unmarked, id, types, confidence⟩, properties⟩
  · rintro (object | ⟨head, properties⟩)
    · obtain ⟨a, read⟩ := (Assertion.exists_readFields_iff ordered).2 object
      obtain ⟨v, found, -⟩ := object.value
      exact ⟨.annotated a, .inl ⟨by simp [Fields.has, found], a, read, rfl⟩⟩
    · obtain ⟨n, read⟩ := (Node.exists_ofFields_iff ordered).2
        ⟨head.id, head.types, head.confidence, properties⟩
      exact ⟨.node n, .inr ⟨by simp [Fields.has, head.unmarked], n, read, rfl⟩⟩

/-- A document in name order is read as a property value exactly where it follows the grammar. -/
theorem exists_ofJson_iff_legible {document : Json R} (ordered : document.Ordered) :
    (∃ v, ofJson document = .ok v) ↔ document.Legible := by
  induction ordered with
  | null =>
    constructor
    · rintro ⟨v, read⟩
      rw [ofJson] at read
      cases read
    · rintro (none | _)
      cases none
  | bool b => exact ⟨fun _ => .literal trivial, fun _ => ⟨.literal (.boolean b), by rw [ofJson]⟩⟩
  | number n => exact ⟨fun _ => .literal trivial, fun _ => ⟨.literal (.number n), by rw [ofJson]⟩⟩
  | text s => exact ⟨fun _ => .literal trivial, fun _ => ⟨.literal (.text s), by rw [ofJson]⟩⟩
  | @array items _ ih =>
    have traversed : (∃ v, ofJson (.array items) = .ok v) ↔ ∃ vs, items.mapM ofJson = .ok vs := by
      rw [ofJson, ofItems_eq_mapM]
      simp [bind_eq_ok_iff, pure, Except.pure]
    rw [traversed, exists_mapM_iff, Json.legible_array_iff]
    exact forall₂_congr ih
  | @object fields names _ ih =>
    rw [exists_ofJson_object_iff names, Json.legible_object_iff]
    have inner : (∀ f ∈ fields, ¬ Node.Reserved f.1 → ∃ v, ofJson f.2 = .ok v) ↔
        ∀ f ∈ fields, ¬ Node.Reserved f.1 → f.2.Legible :=
      forall₂_congr (fun f hf => imp_congr_right (fun _ => ih f hf))
    rw [inner]

end PropertyValue

def sourcelessName : Json Float :=
  .ofFields [(Keyword.type, Json.texts ["Person"]),
    ("name", .ofFields [(Keyword.value, .text "Ada"), (Keyword.confidence, .number (.whole 1)),
      (Keyword.source, .null), ("@language", .text "en")])]

def strayNote : Json Float := .ofFields [(Keyword.value, .text "Ada"), ("note", .bool true)]

theorem PropertyValue.exists_ofJson_iff_legible_names :
    sourcelessName.Ordered ∧ (∃ v, ofJson sourcelessName = .ok v) ∧ sourcelessName.Legible ∧
      strayNote.Ordered ∧ (∀ v, ofJson strayNote ≠ .ok v) ∧ ¬ strayNote.Legible := by
  have ordered : sourcelessName.Ordered := by decide +kernel
  have ordered' : strayNote.Ordered := by decide +kernel
  have read := exists_eq_ok_of_isOk
    (show (ofJson sourcelessName).isOk = true by decide +kernel)
  have refused : ∀ v, ofJson strayNote ≠ .ok v := by
    intro v read
    have failed : (ofJson strayNote).isOk = false := by decide +kernel
    simp [read, Except.isOk, Except.toBool] at failed
  refine ⟨ordered, read, (exists_ofJson_iff_legible ordered).1 read, ordered', refused, ?_⟩
  intro legible
  obtain ⟨v, read⟩ := (exists_ofJson_iff_legible ordered').2 legible
  exact refused v read

end Credence
