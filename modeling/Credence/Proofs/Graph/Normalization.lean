import Credence.Proofs.Graph.ReadBack
import Credence.Proofs.Scalar.Binary64

/-! # What reading keeps

What is written for a property value is the document it was read from, up to the forms that one
part can take: null for a part of a value object that is left out, the spelling of a confidence and
of an instant, and the ways to list no type or one type. Everything else stands in the document as
it was, at any depth, and what is written is in normal form already.
-/

namespace Credence
variable {R : Type}

namespace Fields
variable {V W : Type}

/-- The fields whose values change by their names, or go. -/
def changed (change : String → V → Option W) (fields : Fields V) : Fields W :=
  fields.filterMap (fun f => (change f.1 f.2).map (fun w => (f.1, w)))

variable {change : String → V → Option W} {fields : Fields V}

theorem mem_changed {f : String × W} :
    f ∈ fields.changed change ↔ ∃ v, (f.1, v) ∈ fields ∧ change f.1 v = some f.2 := by
  simp only [changed, List.mem_filterMap, Option.map_eq_some_iff]
  constructor
  · rintro ⟨⟨name, v⟩, hf, w, made, rfl⟩
    exact ⟨v, hf, made⟩
  · rintro ⟨v, hf, made⟩
    exact ⟨(f.1, v), hf, f.2, made, rfl⟩

theorem ordered_changed (h : Ordered fields) : Ordered (fields.changed change) := by
  refine List.Pairwise.filterMap _ (fun f g before f' hf' g' hg' => ?_) h
  obtain ⟨w, -, rfl⟩ := Option.map_eq_some_iff.1 hf'
  obtain ⟨w', -, rfl⟩ := Option.map_eq_some_iff.1 hg'
  exact before

theorem get?_changed (h : Ordered fields) (name : String) :
    (fields.changed change).get? name = (fields.get? name).bind (change name) := by
  apply Option.ext
  intro w
  rw [← mem_iff_get?_eq_some (f := (name, w)) (ordered_changed h), mem_changed,
    Option.bind_eq_some_iff]
  simp only [← mem_iff_get?_eq_some (f := (name, _)) h]

theorem get?_map (form : V → W) (fields : Fields V) (name : String) :
    Fields.get? (fields.map (fun f => (f.1, form f.2))) name = (fields.get? name).map form := by
  induction fields with
  | nil => rfl
  | cons f rest ih =>
    obtain ⟨k, v⟩ := f
    rw [List.map_cons, get?_cons, get?_cons, ih]
    split <;> rfl

/-- A name whose values never go stands among the fields as before. -/
theorem has_changed {name : String} (kept : ∀ v, (change name v).isSome) :
    (fields.changed change).has name = fields.has name := by
  have member : name ∈ (fields.changed change).names ↔ name ∈ fields.names := by
    simp only [names, List.mem_map]
    constructor
    · rintro ⟨f, hf, rfl⟩
      obtain ⟨v, hv, -⟩ := mem_changed.1 hf
      exact ⟨_, hv, rfl⟩
    · rintro ⟨⟨k, v⟩, hf, rfl⟩
      obtain ⟨w, made⟩ := Option.isSome_iff_exists.1 (kept v)
      exact ⟨(k, w), mem_changed.2 ⟨v, hf, made⟩, rfl⟩
  rw [Bool.eq_iff_iff]
  simpa only [has, isSome_get?_iff] using member

theorem changed_eq_self {change : String → V → Option V} {fields : Fields V}
    (still : ∀ f ∈ fields, change f.1 f.2 = some f.2) : fields.changed change = fields := by
  have kept : ∀ f ∈ fields, (change f.1 f.2).map (fun v => (f.1, v)) = some f := by
    intro f hf
    rw [still f hf, Option.map_some]
  rw [changed, List.filterMap_congr kept, List.filterMap_some]

end Fields

namespace Json

/-- Null is a part that is left out. -/
def present? : Json R → Option (Json R)
  | .null => none
  | document => some document

/-- No type is left out, and one type stands alone. -/
def typesForm : Json R → Option (Json R)
  | .array [] => none
  | .array [.text type] => some (.text type)
  | document => some document

def instantForm : Json R → Json R
  | .text s =>
    match Instant.parse s with
    | .ok t => Assertion.instantJson t
    | .error _ => .text s
  | document => document

variable [Scalar R]

def scalarForm : Json R → Json R
  | .number n => .number (.scalar n.toScalar)
  | document => document

def partForm (name : String) (value : Json R) : Option (Json R) :=
  if name = Keyword.confidence then value.scalarForm.present?
  else if name = Keyword.extractedAt then value.instantForm.present?
  else if name = Keyword.source ∨ name = Keyword.method then value.present?
  else some value

/-- The form of a field of a node, by the form of its value. -/
def fieldForm (name : String) (value form : Json R) : Option (Json R) :=
  if name = Keyword.id then some value
  else if name = Keyword.type then value.typesForm
  else if name = Keyword.confidence then some value.scalarForm
  else some form

mutual

/-- The normal form of a property value. -/
def normalForm : Json R → Json R
  | .null => .null
  | .bool b => .bool b
  | .number n => .number n
  | .text s => .text s
  | .array items => .array (normalItems items)
  | .object fields =>
    if Fields.has fields Keyword.value then .object (Fields.changed partForm fields)
    else .object (normalFields fields)

def normalItems : List (Json R) → List (Json R)
  | [] => []
  | item :: rest => item.normalForm :: normalItems rest

def normalFields : List (String × Json R) → List (String × Json R)
  | [] => []
  | (name, value) :: rest =>
    match fieldForm name value value.normalForm with
    | some form => (name, form) :: normalFields rest
    | none => normalFields rest

end

theorem normalItems_eq_map (items : List (Json R)) : normalItems items = items.map normalForm := by
  induction items with
  | nil => rw [normalItems, List.map_nil]
  | cons item rest ih => rw [normalItems, List.map_cons, ih]

theorem normalFields_eq_changed (fields : Fields (Json R)) :
    normalFields fields =
      fields.changed (fun name value => fieldForm name value value.normalForm) := by
  induction fields with
  | nil => rw [normalFields, Fields.changed, List.filterMap_nil]
  | cons f rest ih =>
    obtain ⟨name, value⟩ := f
    rw [normalFields, ih]
    simp only [Fields.changed, List.filterMap_cons]
    cases fieldForm name value value.normalForm <;> rfl

theorem scalarForm_scalarForm (document : Json R) :
    document.scalarForm.scalarForm = document.scalarForm := by
  cases document <;> rfl

theorem instantForm_instantForm {R : Type} (document : Json R) :
    document.instantForm.instantForm = document.instantForm := by
  cases document with
  | text s =>
    rw [instantForm]
    cases read : Instant.parse s with
    | error e => simp only [instantForm, read]
    | ok t =>
      simp only [Assertion.instantJson, instantForm, Instant.parse_print_of_parse read]
  | null | bool b | number n | array items | object fields => rfl

/-- A form that a part takes once and for all is the form of the part itself. -/
theorem present?_eq_some {R : Type} {form : Json R → Json R} (still : ∀ j, form (form j) = form j)
    {document part : Json R} (h : (form document).present? = some part) :
    (form part).present? = some part := by
  have same : form document = part := by
    unfold present? at h
    split at h
    · cases h
    · exact Option.some.inj h
  rw [← same, still]
  exact same ▸ h

theorem typesForm_eq_some {R : Type} {document form : Json R} (h : document.typesForm = some form) :
    form.typesForm = some form := by
  unfold typesForm at h
  split at h
  · cases h
  · cases h
    rfl
  · next none one =>
    cases h
    unfold typesForm
    split
    · exact absurd rfl none
    · next type => exact absurd rfl (one type)
    · rfl

theorem partForm_eq_some {name : String} {value form : Json R}
    (h : partForm name value = some form) : partForm name form = some form := by
  unfold partForm at h ⊢
  by_cases confidence : name = Keyword.confidence
  · rw [if_pos confidence] at h ⊢
    exact present?_eq_some scalarForm_scalarForm h
  rw [if_neg confidence] at h ⊢
  by_cases extractedAt : name = Keyword.extractedAt
  · rw [if_pos extractedAt] at h ⊢
    exact present?_eq_some instantForm_instantForm h
  rw [if_neg extractedAt] at h ⊢
  by_cases text : name = Keyword.source ∨ name = Keyword.method
  · rw [if_pos text] at h ⊢
    exact @present?_eq_some R id (fun _ => rfl) _ _ h
  · rw [if_neg text]

theorem fieldForm_eq_some {name : String} {value form : Json R}
    (still : value.normalForm.normalForm = value.normalForm)
    (h : fieldForm name value value.normalForm = some form) :
    fieldForm name form form.normalForm = some form := by
  unfold fieldForm at h ⊢
  by_cases id : name = Keyword.id
  · rw [if_pos id]
  rw [if_neg id] at h ⊢
  by_cases type : name = Keyword.type
  · rw [if_pos type] at h ⊢
    exact typesForm_eq_some h
  rw [if_neg type] at h ⊢
  by_cases confidence : name = Keyword.confidence
  · rw [if_pos confidence] at h ⊢
    cases h
    rw [scalarForm_scalarForm]
  · rw [if_neg confidence] at h ⊢
    cases h
    rw [still]

theorem normalForm_normalForm (document : Json R) :
    document.normalForm.normalForm = document.normalForm := by
  induction document using Json.induction with
  | null | bool b | number n | text s => rfl
  | array items ih =>
    rw [normalForm, normalForm, normalItems_eq_map, normalItems_eq_map, List.map_map]
    exact congrArg Json.array (List.map_congr_left ih)
  | object fields ih =>
    rw [normalForm]
    by_cases marked : Fields.has fields Keyword.value = true
    · have still : Fields.changed partForm (Fields.changed partForm fields) =
          Fields.changed partForm fields := by
        refine Fields.changed_eq_self (fun f hf => ?_)
        obtain ⟨value, -, made⟩ := Fields.mem_changed.1 hf
        exact partForm_eq_some made
      rw [if_pos marked, normalForm, Fields.has_changed (fun _ => rfl), if_pos marked, still]
    · have still : normalFields (normalFields fields) = normalFields fields := by
        simp only [normalFields_eq_changed]
        refine Fields.changed_eq_self (fun f hf => ?_)
        obtain ⟨value, hvalue, made⟩ := Fields.mem_changed.1 hf
        exact fieldForm_eq_some (ih (f.1, value) hvalue) made
      have unmarked : Fields.has (normalFields fields) Keyword.value =
          Fields.has fields Keyword.value := by
        rw [normalFields_eq_changed, Fields.has_changed (fun _ => rfl)]
      rw [if_neg marked, normalForm, unmarked, if_neg marked, still]

end Json

/-- A part of a record that may be left out is written in the form of the value it is read from. -/
theorem Record.bind_of_omissible {α : Type} {fields : Fields (Json R)} {name : String}
    {read : Json R → Except (RecordFault R) α} {part : Option α}
    (h : omissible fields name (readNullable read) none = .ok part)
    {form : Json R → Json R} {write : α → Json R} (null : form .null = .null)
    (same : ∀ v x, read v = .ok x → (form v).present? = some (write x)) :
    (fields.get? name).bind (fun v => (form v).present?) = part.map write := by
  obtain ⟨none, rfl⟩ | ⟨v, x, found, -, read, rfl⟩ := omissible_eq_ok_iff.1 h
  · cases found : fields.get? name with
    | none => rfl
    | some v => rw [none v found, Option.bind_some, null]; rfl
  · rw [found, Option.bind_some, same v x read, Option.map_some]

theorem Literal.eq_toJson_of_read {v : Json R} {l : Literal R} (h : read v = .ok l) :
    v = l.toJson := by
  cases v <;> cases h <;> rfl

theorem Record.eq_text_of_readText {v : Json R} {s : String} (h : readText v = .ok s) :
    v = .text s := by
  cases v <;> cases h
  rfl

theorem eq_text_of_readId {v : Json R} {id : String} (h : readId v = .ok id) : v = .text id := by
  cases v <;> cases h
  rfl

theorem typesForm_texts (types : List String) :
    (Json.texts (R := R) types).typesForm = typesJson? types :=
  match types with
  | [] => rfl
  | [_] => rfl
  | _ :: _ :: _ => rfl

theorem typesForm_of_readTypes {v : Json R} {types : List String} (h : readTypes v = .ok types) :
    v.typesForm = typesJson? types := by
  cases v with
  | text s =>
    cases h
    rfl
  | array items =>
    have texts : types.map Json.text = items := by
      rw [readTypes, mapM_eq_ok_iff] at h
      refine (map_eq_map_of_related h (fun item _ type read => ?_)).trans items.map_id
      cases item <;> cases read
      rfl
    rw [← texts]
    exact typesForm_texts types
  | null | bool b | number n | object fields => cases h

theorem bind_of_elim {α : Type} {found : Option (Json R)}
    {read : Json R → Except (ValidationError R) α} {part : Option α}
    (h : found.elim (.ok none) (fun v => (read v).map some) = .ok part)
    {form : Json R → Option (Json R)} {write : α → Json R}
    (same : ∀ v x, read v = .ok x → form v = some (write x)) :
    found.bind form = part.map write := by
  cases found with
  | none =>
    cases h
    rfl
  | some v =>
    obtain ⟨x, read, rfl⟩ := map_eq_ok_iff.1 h
    exact same v x read

theorem bind_typesForm {found : Option (Json R)} {types : List String}
    (h : found.elim (.ok []) readTypes = .ok types) :
    found.bind Json.typesForm = typesJson? types := by
  cases found with
  | none =>
    cases h
    rfl
  | some v => exact typesForm_of_readTypes h

theorem Assertion.instantForm_of_readInstant {v : Json R} {t : Instant}
    (h : readInstant v = .ok t) : v.instantForm = instantJson t := by
  cases v with
  | text s => simp only [Json.instantForm, mapError_eq_ok_iff.1 h]
  | null | bool b | number n | array items | object fields => cases h

variable [Scalar R]

theorem Record.scalarForm_of_readScalar {v : Json R} {c : R} (h : readScalar v = .ok c) :
    v.scalarForm = .number (.scalar c) := by
  cases v <;> cases h
  rfl

theorem scalarForm_of_readConfidence {v : Json R} {c : R} (h : readConfidence v = .ok c) :
    v.scalarForm = .number (.scalar c) := by
  cases v with
  | number n =>
    obtain ⟨-, -, same⟩ := bind_eq_ok_iff.1 h
    cases same
    rfl
  | null | bool b | text s | array items | object fields => cases h

namespace Assertion

/-- Under the name of each part stands the form of the value that the part was read from. -/
theorem get?_written_eq_bind (finite : ScoresFinite R) {fields : Fields (Json R)} {a : Assertion R}
    (reads : Reads fields a) (h : a.WellFormed) {name : String} (part : name ∈ partNames) :
    a.written.get? name = (fields.get? name).bind (Json.partForm name) := by
  obtain ⟨value, confidence, source, extractedAt, method⟩ := h.get?_written
  rw [finite.bind_ofScalar? h.score] at confidence
  have texts : ∀ v s, Record.readText v = .ok s → v.present? = some (Json.text (R := R) s) := by
    intro v s read
    rw [Record.eq_text_of_readText read]
    rfl
  simp only [partNames, List.mem_cons, List.not_mem_nil, or_false] at part
  obtain rfl | rfl | rfl | rfl | rfl := part
  · obtain ⟨v, found, read⟩ := Record.required_eq_ok_iff.1 reads.value
    rw [value, found, Literal.eq_toJson_of_read read]
    rfl
  · rw [confidence]
    refine (Record.bind_of_omissible reads.confidence rfl (fun v c read => ?_)).symm
    rw [Record.scalarForm_of_readScalar read]
    rfl
  · rw [source]
    exact (Record.bind_of_omissible reads.source rfl texts).symm
  · rw [extractedAt]
    refine (Record.bind_of_omissible reads.extractedAt rfl (fun v t read => ?_)).symm
    rw [instantForm_of_readInstant read]
    rfl
  · rw [method]
    exact (Record.bind_of_omissible reads.method rfl texts).symm

/-- What is written for an assertion is the value object that it was read from. -/
theorem written_eq_changed (finite : ScoresFinite R) {fields : Fields (Json R)}
    (names : Fields.Ordered fields) (parts : ∀ f ∈ fields, f.2.Ordered) {a : Assertion R}
    (h : readFields fields = .ok a) : a.written = fields.changed Json.partForm := by
  have reads := readFields_eq_ok_iff.1 h
  have wellFormed := wellFormed_of_readFields names parts h
  apply Fields.eq_of_get?_eq a.ordered_written (Fields.ordered_changed names)
  intro name
  rw [Fields.get?_changed names]
  by_cases part : name ∈ partNames
  · exact get?_written_eq_bind finite reads wellFormed part
  -- Under any other name stands a keyword, which is kept as it is.
  · rw [get?_written_of_notMem wellFormed.ordered part, ← reads.keywords_eq, get?_otherFields,
      if_neg part]
    simp only [partNames, List.mem_cons, List.not_mem_nil, or_false, not_or] at part
    have kept : Json.partForm (R := R) name = some := by
      ext v
      simp [Json.partForm, part]
    rw [kept, Option.bind_fun_some]

end Assertion

namespace Node

/-- Under a reserved name stands the form of the value under it. -/
theorem get?_written_eq_bind_of_reserved (finite : ScoresFinite R) {fields : Fields (Json R)}
    {n : Node R} (reads : Reads fields n) (h : n.WellFormed) {name : String}
    (reserved : Reserved name) :
    n.written.get? name =
      (fields.get? name).bind (fun value => Json.fieldForm name value value.normalForm) := by
  obtain ⟨id, types, confidence⟩ := h.get?_written finite
  obtain rfl | rfl | rfl := reserved
  · rw [id]
    refine (bind_of_elim reads.id (fun v id read => ?_)).symm
    rw [eq_text_of_readId read]
    rfl
  · rw [types]
    exact (bind_typesForm reads.types).symm
  · rw [confidence]
    refine (bind_of_elim reads.confidence (fun v c read => ?_)).symm
    rw [← scalarForm_of_readConfidence read]
    rfl

/-- Under any other name stands the value of a property, in normal form if all properties are
written so. -/
theorem get?_written_eq_bind_of_free {fields : Fields (Json R)} {n : Node R}
    (reads : Reads fields n) (h : n.WellFormed)
    (values : ∀ f ∈ fields, ∀ v, PropertyValue.ofJson f.2 = .ok v → v.toJson = f.2.normalForm)
    {name : String} (free : ¬ Reserved name) :
    n.written.get? name =
      (fields.get? name).bind (fun value => Json.fieldForm name value value.normalForm) := by
  have properties : PropertyValue.toFields n.properties =
      (fields.filter (fun f => decide (¬ Reserved f.1))).map (fun f => (f.1, f.2.normalForm)) := by
    rw [PropertyValue.toFields_eq_map]
    refine map_eq_map_of_related reads.properties (fun f hf p pair => ?_)
    rw [pair.1, values f (List.mem_filter.1 hf).1 p.2 pair.2]
  have forms : ∀ value : Json R, Json.fieldForm name value value.normalForm =
      some value.normalForm := by
    intro value
    simp only [Reserved, not_or] at free
    simp [Json.fieldForm, free]
  rw [written, Fields.get?_overlay h.ordered_toFields, get?_head_of_not_reserved n free,
    properties, Fields.get?_map, Fields.get?_filter fields (fun name => decide (¬ Reserved name)),
    if_pos (by simpa using free)]
  cases fields.get? name <;> simp [forms]

/-- What is written for a node is the object that it was read from, if so are the values of its
properties. -/
theorem written_eq_normalFields (finite : ScoresFinite R) {fields : Fields (Json R)}
    (names : Fields.Ordered fields) {n : Node R} (reads : Reads fields n) (h : n.WellFormed)
    (values : ∀ f ∈ fields, ∀ v, PropertyValue.ofJson f.2 = .ok v → v.toJson = f.2.normalForm) :
    n.written = Json.normalFields fields := by
  rw [Json.normalFields_eq_changed]
  apply Fields.eq_of_get?_eq n.ordered_written (Fields.ordered_changed names)
  intro name
  rw [Fields.get?_changed names]
  by_cases reserved : Reserved name
  · exact get?_written_eq_bind_of_reserved finite reads h reserved
  · exact get?_written_eq_bind_of_free reads h values reserved

end Node

namespace PropertyValue

theorem toJson_eq_normalForm (finite : ScoresFinite R) {document : Json R}
    (ordered : document.Ordered) {v : PropertyValue R} (read : ofJson document = .ok v) :
    v.toJson = document.normalForm := by
  induction ordered generalizing v with
  | null =>
    rw [ofJson] at read
    cases read
  | bool b | number n | text s =>
    rw [ofJson] at read
    cases read
    rw [toJson, Literal.toJson, Json.normalForm]
  | @array items _ ih =>
    rw [ofJson, ofItems_eq_mapM] at read
    obtain ⟨vs, made, same⟩ := bind_eq_ok_iff.1 read
    cases same
    rw [toJson, toItems_eq_map, Json.normalForm, Json.normalItems_eq_map,
      map_eq_map_of_related (mapM_eq_ok_iff.1 made) (fun item hitem v => ih item hitem)]
  | @object fields names parts ih =>
    obtain ⟨marked, a, made, rfl⟩ | ⟨unmarked, n, made, rfl⟩ := ofJson_object_eq_ok_iff.1 read
    · rw [toJson, Assertion.toJson_eq, Json.normalForm, if_pos marked,
        Assertion.written_eq_changed finite names parts made]
    · rw [toJson, Node.toJson_eq, Json.normalForm, if_neg (by simp [unmarked]),
        Node.written_eq_normalFields finite names (Node.reads_of_ofFields made)
          (Node.wellFormed_of_ofFields names unmarked made) (fun f hf v => ih f hf)]

/-- Reading drops nothing: a value is written as the normal form of its document, what is in normal
form stays so, and an instant is spelled in a form from which it is read again. -/
theorem reading_drops_nothing (finite : ScoresFinite R) :
    (∀ document : Json R, document.Ordered → ∀ v, ofJson document = .ok v →
      v.toJson = document.normalForm) ∧
    (∀ document : Json R, document.normalForm.normalForm = document.normalForm) ∧
    ∀ s t, Instant.parse s = .ok t →
      (Json.text (R := R) s).instantForm = .text t.print ∧ Instant.parse t.print = .ok t := by
  refine ⟨fun _ ordered _ read => toJson_eq_normalForm finite ordered read,
    Json.normalForm_normalForm, fun s t read => ⟨?_, Instant.parse_print_of_parse read⟩⟩
  simp only [Json.instantForm, read, Assertion.instantJson]

end PropertyValue

def looseName : Json Float :=
  .ofFields [(Keyword.id, .text "ex:ada"), (Keyword.type, Json.texts ["Person"]),
    ("name", .array [.ofFields [(Keyword.value, .text "Ada"),
      (Keyword.confidence, .number (.whole 1)), (Keyword.source, .null),
      (Keyword.extractedAt, .text "2024-01-01T01:00:00+01:00")]])]

def writtenName : Json Float :=
  .ofFields [(Keyword.id, .text "ex:ada"), (Keyword.type, .text "Person"),
    ("name", .array [.ofFields [(Keyword.value, .text "Ada"),
      (Keyword.confidence, .number (.scalar ((1 : Int) : Float))),
      (Keyword.extractedAt, .text "2024-01-01T00:00:00Z")]])]

theorem PropertyValue.reading_drops_nothing_name :
    looseName.Ordered ∧ ∃ v, ofJson looseName = .ok v ∧ v.toJson = writtenName ∧
      writtenName.normalForm = writtenName := by
  have ordered : looseName.Ordered := by decide +kernel
  have normal : looseName.normalForm = writtenName := by rfl
  obtain ⟨written, still, -⟩ := reading_drops_nothing Binary64.scoresFinite
  obtain ⟨v, read⟩ := exists_eq_ok_of_isOk
    (show (ofJson looseName).isOk = true by decide +kernel)
  refine ⟨ordered, v, read, (written looseName ordered v read).trans normal, ?_⟩
  rw [← normal, still]

end Credence
