import Credence.Assertion.Codec
import Credence.Proofs.Instant.ReadBack
import Credence.Proofs.Json.Ordered
import Credence.Proofs.Record

/-! # Value objects read back

An assertion is read from an object exactly where every part of it is spelled and the other fields
are keywords. What is read is well-formed: its confidence is a score and its further keywords are
in name order and none of them names a part. A well-formed assertion is read back from what is
written for it, as far as its instant is.
-/

namespace Credence
variable {R : Type}

theorem Literal.ordered_toJson (l : Literal R) : l.toJson.Ordered := by
  cases l with
  | boolean b => exact .bool b
  | number n => exact .number n
  | text s => exact .text s

variable [Scalar R]

/-- A document has a number for every score. -/
def ScoresFinite (R : Type) [Scalar R] : Prop :=
  ∀ c : R, Scalar.InUnit c → Scalar.isFinite c = true

theorem ScoresFinite.bind_ofScalar? (finite : ScoresFinite R) {confidence : Option R}
    (score : ∀ c, confidence = some c → Scalar.InUnit c) :
    (confidence.bind Number.ofScalar?).map Json.number =
      confidence.map (fun c => .number (.scalar c)) := by
  cases confidence with
  | none => rfl
  | some c => simp [Number.ofScalar?, finite c (score c rfl)]

namespace Assertion

theorem validate_eq_ok_iff {a : Assertion R} :
    a.validate = .ok () ↔ ∀ c, a.confidence = some c → Scalar.InUnit c := by
  unfold validate
  cases a.confidence with
  | none => simp
  | some c => simp [checkScore_eq_ok_iff]

theorem withConfidence_eq_ok_iff {a b : Assertion R} {c : R} :
    a.withConfidence c = .ok b ↔ Scalar.InUnit c ∧ b = { a with confidence := some c } := by
  unfold withConfidence
  rw [bind_eq_ok_iff]
  constructor
  · rintro ⟨u, checked, h⟩
    exact ⟨checkScore_eq_ok_iff.1 checked, (Except.ok.inj h).symm⟩
  · rintro ⟨unit, rfl⟩
    exact ⟨(), checkScore_eq_ok_iff.2 unit, rfl⟩

theorem withConfidence_eq_ok (a : Assertion R) {c : R}
    (unit : Scalar.InUnit c) : a.withConfidence c = .ok { a with confidence := some c } :=
  withConfidence_eq_ok_iff.2 ⟨unit, rfl⟩

theorem build_eq_ok_iff {value : Option (Literal R)} {confidence : Option R}
    {source : Option String} {extractedAt : Option Instant} {method : Option String}
    {a : Assertion R} : build value confidence source extractedAt method = .ok a ↔
      (∀ c, confidence = some c → Scalar.InUnit c) ∧
        ∃ l, value = some l ∧ a = ⟨l, confidence, source, extractedAt, method, []⟩ := by
  cases value with
  | none => simp [build, throw, throwThe, MonadExceptOf.throw]
  | some l =>
    unfold build
    rw [bind_eq_ok_iff]
    constructor
    · rintro ⟨u, checked, h⟩
      exact ⟨validate_eq_ok_iff.1 checked, l, rfl, (Except.ok.inj h).symm⟩
    · rintro ⟨score, l', same, rfl⟩
      cases same
      exact ⟨(), validate_eq_ok_iff.2 score, rfl⟩

theorem confidenceOrDefault_inUnit (half : Scalar.InUnit (Scalar.oneOver 2 : R))
    {a : Assertion R} (units : ∀ c, a.confidence = some c → Scalar.InUnit c) :
    Scalar.InUnit a.confidenceOrDefault := by
  unfold confidenceOrDefault
  cases hc : a.confidence with
  | none => exact half
  | some c => exact units c hc

def partNames : List String :=
  [Keyword.value, Keyword.confidence, Keyword.source, Keyword.extractedAt, Keyword.method]

theorem otherFields_eq (fields : Fields (Json R)) :
    otherFields fields = fields.filter (fun f => !partNames.any (fun name => name == f.1)) := rfl

theorem get?_otherFields (fields : Fields (Json R)) (name : String) :
    (otherFields fields).get? name = if name ∈ partNames then none else fields.get? name := by
  rw [otherFields_eq,
    Fields.get?_filter fields (fun other => !partNames.any (fun part => part == other))]
  by_cases part : name ∈ partNames <;> simp [part]

theorem mem_otherFields_iff {fields : Fields (Json R)} {f : String × Json R} :
    f ∈ otherFields fields ↔ f ∈ fields ∧ f.1 ∉ partNames := by
  have apart : (∀ name ∈ partNames, ¬ name = f.1) ↔ f.1 ∉ partNames :=
    ⟨fun h taken => h f.1 taken rfl, fun free name taken same => free (same ▸ taken)⟩
  rw [otherFields_eq, List.mem_filter, ← apart]
  simp

/-- What the fields of an object have to spell to make an assertion. -/
structure Reads (fields : Fields (Json R)) (a : Assertion R) : Prop where
  checked : ∀ f ∈ fields, shape.checkField f.1 f.2 = .ok ()
  value : Record.required fields Keyword.value Literal.read = .ok a.value
  confidence : Record.omissible fields Keyword.confidence (Record.readNullable Record.readScalar)
    none = .ok a.confidence
  source : Record.omissible fields Keyword.source (Record.readNullable Record.readText) none =
    .ok a.source
  extractedAt : Record.omissible fields Keyword.extractedAt (Record.readNullable readInstant)
    none = .ok a.extractedAt
  method : Record.omissible fields Keyword.method (Record.readNullable Record.readText) none =
    .ok a.method
  keywords_eq : otherFields fields = a.keywords
  keyword : ∀ f ∈ a.keywords, Keyword.isKeyword f.1 = true
  valid : a.validate = .ok ()

theorem readFields_eq_ok_iff {fields : Fields (Json R)} {a : Assertion R} :
    readFields fields = .ok a ↔ Reads fields a := by
  unfold readFields
  simp only [bind_eq_ok_iff]
  constructor
  · rintro ⟨fields', read, value, hv, confidence, hc, source, hs, extractedAt, he, method, hm, h⟩
    rcases Shape.readObject_eq_ok_iff.1 read with ⟨rfl, checked, -⟩
    cases stray : (otherFields fields').find? (fun field => !Keyword.isKeyword field.1) with
    | some field =>
      rw [stray] at h
      cases h
    | none =>
      rw [stray] at h
      rcases bind_eq_ok_iff.1 h with ⟨u, valid, h⟩
      cases h
      have keyword : ∀ f ∈ otherFields fields', Keyword.isKeyword f.1 = true := by
        simpa using stray
      exact ⟨checked, hv, hc, hs, he, hm, rfl, keyword, mapError_eq_ok_iff.1 valid⟩
  · intro h
    have present : ∀ rule ∈ (shape (R := R)).fields, rule.optional = false →
        fields.has rule.name = true := by
      intro rule declared needed
      have only : rule.name = Keyword.value := by
        simp only [shape, List.mem_cons, List.not_mem_nil, or_false] at declared
        rcases declared with rfl | rfl | rfl | rfl | rfl
        · rfl
        · cases needed
        · cases needed
        · cases needed
        · cases needed
      rw [only]
      exact Record.has_of_required h.value
    have read := Shape.readObject_eq_ok_iff.2 ⟨rfl, h.checked, present⟩
    refine ⟨fields, read, a.value, h.value, a.confidence, h.confidence, a.source, h.source,
      a.extractedAt, h.extractedAt, a.method, h.method, ?_⟩
    have stray : (otherFields fields).find? (fun field => !Keyword.isKeyword field.1) = none := by
      rw [h.keywords_eq]
      simpa using h.keyword
    rw [stray, h.keywords_eq]
    exact bind_eq_ok_iff.2 ⟨(), mapError_eq_ok_iff.2 h.valid, rfl⟩

/-- Fields in name order that spell every part make the assertion: each of them passes the check of
its part, since the part is read from it. -/
theorem reads_of_parts {fields : Fields (Json R)} (ordered : Fields.Ordered fields)
    {a : Assertion R} (value : Record.required fields Keyword.value Literal.read = .ok a.value)
    (confidence : Record.omissible fields Keyword.confidence
      (Record.readNullable Record.readScalar) none = .ok a.confidence)
    (source : Record.omissible fields Keyword.source (Record.readNullable Record.readText) none =
      .ok a.source)
    (extractedAt : Record.omissible fields Keyword.extractedAt (Record.readNullable readInstant)
      none = .ok a.extractedAt)
    (method : Record.omissible fields Keyword.method (Record.readNullable Record.readText) none =
      .ok a.method)
    (keywords : otherFields fields = a.keywords)
    (keyword : ∀ f ∈ a.keywords, Keyword.isKeyword f.1 = true)
    (score : ∀ c, a.confidence = some c → Scalar.InUnit c) : Reads fields a := by
  refine ⟨Shape.checkField_of_passes ordered ?_, value, confidence, source, extractedAt, method,
    keywords, keyword, validate_eq_ok_iff.2 score⟩
  simp only [shape, List.forall_mem_cons]
  exact ⟨.required value, .omissible confidence, .omissible source, .omissible extractedAt,
    .omissible method, by simp⟩

/-- What is true of every assertion that is read from an object in name order. -/
structure WellFormed (a : Assertion R) : Prop where
  score : ∀ c, a.confidence = some c → Scalar.InUnit c
  ordered : Fields.Ordered a.keywords
  contents : ∀ f ∈ a.keywords, f.2.Ordered
  keyword : ∀ f ∈ a.keywords, Keyword.isKeyword f.1 = true
  further : ∀ f ∈ a.keywords, f.1 ∉ partNames

theorem WellFormed.of_score {a : Assertion R} (bare : a.keywords = [])
    (score : ∀ c, a.confidence = some c → Scalar.InUnit c) : a.WellFormed := by
  constructor
  case score => exact score
  case ordered => exact bare ▸ Fields.ordered_nil
  case contents => simp [bare]
  case keyword => simp [bare]
  case further => simp [bare]

theorem WellFormed.held {a : Assertion R} (h : a.WellFormed) {c : R} (unit : Scalar.InUnit c) :
    WellFormed { a with confidence := some c } :=
  ⟨fun _ same => Option.some.inj same ▸ unit, h.ordered, h.contents, h.keyword, h.further⟩

theorem wellFormed_of_readFields {fields : Fields (Json R)} (ordered : Fields.Ordered fields)
    (contents : ∀ f ∈ fields, f.2.Ordered) {a : Assertion R} (h : readFields fields = .ok a) :
    a.WellFormed := by
  have reads := readFields_eq_ok_iff.1 h
  have others : ∀ f ∈ a.keywords, f ∈ fields ∧ f.1 ∉ partNames := by
    intro f hf
    exact mem_otherFields_iff.1 (reads.keywords_eq ▸ hf)
  constructor
  case score => exact validate_eq_ok_iff.1 reads.valid
  case ordered => exact reads.keywords_eq ▸ List.Pairwise.filter _ ordered
  case contents => exact fun f hf => contents f (others f hf).1
  case keyword => exact reads.keyword
  case further => exact fun f hf => (others f hf).2

/-- The instant of an assertion is read back from its text. -/
def Dated (a : Assertion R) : Prop :=
  ∀ t, a.extractedAt = some t → Instant.parse t.print = .ok t

/-- The instant that is read from an object is read back from its text. -/
theorem dated_of_readFields {fields : Fields (Json R)} {a : Assertion R}
    (h : readFields fields = .ok a) : a.Dated := by
  intro t held
  have part := (readFields_eq_ok_iff.1 h).extractedAt
  rw [held] at part
  unfold Record.omissible at part
  split at part
  · next value found =>
    cases value with
    | text s =>
      rcases map_eq_ok_iff.1 part with ⟨t', read, same⟩
      cases same
      exact Instant.parse_print_of_parse (mapError_eq_ok_iff.1 read)
    | null | bool b | number n | array items | object fields => cases part
  · cases part

def written (a : Assertion R) : Fields (Json R) :=
  (((((Fields.ofList a.keywords).insert Keyword.value a.value.toJson).insert?
    Keyword.confidence ((a.confidence.bind Number.ofScalar?).map .number)).insert?
    Keyword.source (a.source.map .text)).insert?
    Keyword.extractedAt (a.extractedAt.map instantJson)).insert?
    Keyword.method (a.method.map .text)

theorem toJson_eq (a : Assertion R) : a.toJson = .object a.written := rfl

def partsOver (a : Assertion R) (base : Fields (Json R)) : Fields (Json R) :=
  ((((base.insert Keyword.value a.value.toJson).insert?
    Keyword.confidence ((a.confidence.bind Number.ofScalar?).map .number)).insert?
    Keyword.source (a.source.map .text)).insert?
    Keyword.extractedAt (a.extractedAt.map instantJson)).insert?
    Keyword.method (a.method.map .text)

theorem written_eq (a : Assertion R) : a.written = a.partsOver (Fields.ofList a.keywords) := rfl

theorem ordered_partsOver (a : Assertion R) {base : Fields (Json R)} (h : Fields.Ordered base) :
    Fields.Ordered (a.partsOver base) := by
  unfold partsOver
  exact Fields.ordered_insert? (Fields.ordered_insert? (Fields.ordered_insert?
    (Fields.ordered_insert? (Fields.ordered_insert h _ _) _ _) _ _) _ _) _ _

theorem ordered_written (a : Assertion R) : Fields.Ordered a.written :=
  a.ordered_partsOver (Fields.ordered_ofList _)

theorem get?_partsOver_of_notMem (a : Assertion R) (base : Fields (Json R)) {name : String}
    (other : name ∉ partNames) : (a.partsOver base).get? name = base.get? name := by
  simp only [partNames, List.mem_cons, List.not_mem_nil, or_false, not_or] at other
  rcases other with ⟨value, confidence, source, extractedAt, method⟩
  unfold partsOver
  rw [Fields.get?_insert?, if_neg method, Fields.get?_insert?, if_neg extractedAt,
    Fields.get?_insert?, if_neg source, Fields.get?_insert?, if_neg confidence,
    Fields.get?_insert, if_neg value]

/-- The parts are found first, and what they are put over where there is no part. -/
theorem get?_partsOver (a : Assertion R) (base : Fields (Json R)) (name : String) :
    (a.partsOver base).get? name = ((a.partsOver []).get? name <|> base.get? name) := by
  have empty (other : String) :
      base.get? other = (Fields.get? ([] : Fields (Json R)) other <|> base.get? other) := rfl
  have value := Fields.get?_insert?_over empty Keyword.value (some a.value.toJson)
  have confidence := Fields.get?_insert?_over value Keyword.confidence
    ((a.confidence.bind Number.ofScalar?).map .number)
  have source := Fields.get?_insert?_over confidence Keyword.source (a.source.map .text)
  have extractedAt := Fields.get?_insert?_over source Keyword.extractedAt
    (a.extractedAt.map instantJson)
  exact Fields.get?_insert?_over extractedAt Keyword.method (a.method.map .text) name

theorem WellFormed.ordered_toJson {a : Assertion R} (h : a.WellFormed) : a.toJson.Ordered := by
  have keywords : (Json.object (Fields.ofList a.keywords)).Ordered :=
    Json.ordered_ofFields h.contents
  have instants (t : Instant) : (instantJson (R := R) t).Ordered := .text t.print
  rw [toJson_eq, written]
  exact ((((keywords.insert _ a.value.ordered_toJson).insert? _ (.of_map .number)).insert?
    _ (.of_map .text)).insert? _ (.of_map instants)).insert? _ (.of_map .text)

theorem get?_written_of_notMem {a : Assertion R} (ordered : Fields.Ordered a.keywords)
    {name : String} (other : name ∉ partNames) :
    a.written.get? name = Fields.get? a.keywords name := by
  rw [written_eq, get?_partsOver_of_notMem _ _ other, Fields.get?_ofList ordered]

theorem WellFormed.get?_keywords {a : Assertion R} (h : a.WellFormed) {name : String}
    (part : name ∈ partNames) : Fields.get? a.keywords name = none := by
  rw [Fields.get?_eq_none_iff]
  intro taken
  rcases List.mem_map.1 taken with ⟨f, hf, rfl⟩
  exact h.further f hf part

theorem WellFormed.get?_written {a : Assertion R} (h : a.WellFormed) :
    a.written.get? Keyword.value = some a.value.toJson ∧
      a.written.get? Keyword.confidence = (a.confidence.bind Number.ofScalar?).map .number ∧
      a.written.get? Keyword.source = a.source.map .text ∧
      a.written.get? Keyword.extractedAt = a.extractedAt.map instantJson ∧
      a.written.get? Keyword.method = a.method.map .text := by
  have confidence : Fields.get? a.keywords "@confidence" = none := h.get?_keywords (by decide)
  have source : Fields.get? a.keywords "@source" = none := h.get?_keywords (by decide)
  have extractedAt : Fields.get? a.keywords "@extractedAt" = none := h.get?_keywords (by decide)
  have method : Fields.get? a.keywords "@method" = none := h.get?_keywords (by decide)
  simp [written, Fields.get?_insert?, Fields.get?_insert, Fields.get?_ofList h.ordered, confidence,
    source, extractedAt, method, Keyword.value, Keyword.confidence, Keyword.source,
    Keyword.extractedAt, Keyword.method]

theorem WellFormed.has_written {a : Assertion R} (h : a.WellFormed) :
    Fields.has a.written Keyword.value = true := by
  rw [Fields.has, h.get?_written.1]
  rfl

theorem WellFormed.otherFields_written {a : Assertion R} (h : a.WellFormed) :
    otherFields a.written = a.keywords := by
  have others : Fields.Ordered (otherFields a.written) :=
    List.Pairwise.filter _ a.ordered_written
  apply Fields.eq_of_get?_eq others h.ordered
  intro name
  rw [get?_otherFields]
  by_cases part : name ∈ partNames
  · rw [if_pos part, h.get?_keywords part]
  · rw [if_neg part, get?_written_of_notMem h.ordered part]

/-- A well-formed assertion is read back from what is written for it. -/
theorem WellFormed.readFields_written {a : Assertion R} (h : a.WellFormed) (dated : a.Dated)
    (finite : ScoresFinite R) : readFields a.written = .ok a := by
  obtain ⟨value, confidence, source, extractedAt, method⟩ := h.get?_written
  rw [finite.bind_ofScalar? h.score] at confidence
  have value : Record.required a.written Keyword.value Literal.read = .ok a.value := by
    simp [Record.required, value, Literal.read, Literal.ofJson?_toJson]
  have confidence := Record.omissible_eq_ok Record.readScalar confidence (fun c _ => rfl)
  have source := Record.omissible_eq_ok Record.readText source (fun s _ => rfl)
  have method := Record.omissible_eq_ok Record.readText method (fun s _ => rfl)
  have extractedAt : Record.omissible a.written Keyword.extractedAt
      (Record.readNullable readInstant) none = .ok a.extractedAt := by
    refine Record.omissible_eq_ok readInstant extractedAt (fun t held => ?_)
    simp only [Record.readNullable, instantJson, readInstant, dated t held, Except.mapError,
      Except.map]
  exact readFields_eq_ok_iff.2 (reads_of_parts a.ordered_written value confidence source
    extractedAt method h.otherFields_written h.keyword h.score)

/-- The form of records has the keywords over the parts. -/
theorem toRecord_eq {a : Assertion R}
    (finite : ∀ c, a.confidence = some c → Scalar.isFinite c = true) :
    a.toRecord = .object (Fields.overlay (a.partsOver []) a.keywords) := by
  have confidence : a.confidence.map Json.ofScalar =
      (a.confidence.bind Number.ofScalar?).map .number := by
    cases held : a.confidence with
    | none => rfl
    | some c => simp [Json.ofScalar, Number.ofScalar?, finite c held]
  rw [toRecord, confidence]
  rfl

/-- The two forms are the same exactly where the parts that are put over the keywords leave each of
them as it is. -/
theorem toRecord_eq_toJson_iff {a : Assertion R} (ordered : Fields.Ordered a.keywords)
    (finite : ∀ c, a.confidence = some c → Scalar.isFinite c = true) :
    a.toRecord = a.toJson ↔ ∀ f ∈ a.keywords, a.written.get? f.1 = some f.2 := by
  rw [toRecord_eq finite, toJson_eq, Json.object.injEq]
  constructor
  · intro same f hf
    rw [← same, Fields.get?_overlay ordered, Fields.get?_eq_some_of_mem ordered hf]
    rfl
  · intro kept
    refine Fields.eq_of_get?_eq
      (Fields.ordered_overlay (a.ordered_partsOver Fields.ordered_nil) _) a.ordered_written
      (fun name => ?_)
    rw [Fields.get?_overlay ordered]
    cases found : Fields.get? a.keywords name with
    | none =>
      rw [written_eq, a.get?_partsOver (Fields.ofList a.keywords), Fields.get?_ofList ordered,
        found]
      cases (a.partsOver []).get? name <;> rfl
    | some v => exact (kept (name, v) (Fields.mem_of_get?_eq_some found)).symm

/-- No keyword of a well-formed assertion has the name of a part, so its forms are the same. -/
theorem WellFormed.toRecord_eq_toJson {a : Assertion R} (h : a.WellFormed)
    (finite : ScoresFinite R) : a.toRecord = a.toJson := by
  refine (toRecord_eq_toJson_iff h.ordered (fun c held => finite c (h.score c held))).2 ?_
  intro f hf
  rw [get?_written_of_notMem h.ordered (h.further f hf), Fields.get?_eq_some_of_mem h.ordered hf]

theorem WellFormed.read_toRecord {a : Assertion R} (h : a.WellFormed) (dated : a.Dated)
    (finite : ScoresFinite R) : read a.toRecord = .ok a := by
  rw [h.toRecord_eq_toJson finite, toJson_eq]
  exact h.readFields_written dated finite

end Assertion
end Credence
