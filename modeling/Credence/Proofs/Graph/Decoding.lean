import Credence.Graph.Codec
import Credence.Proofs.Assertion

/-! # What a document can spell

A node that is read from a document states a score where it states a confidence, none of its
properties has a reserved name, and the value of each of them is read from a document value. So a
value that is read states a score too, and it is an array of values or a node of this kind where
it is one at all.
-/

namespace Credence
variable {R : Type} [Scalar R]

/-- A value that some document spells. -/
def PropertyValue.Spelled (v : PropertyValue R) : Prop := ∃ document, ofJson document = .ok v

namespace Node

/-- A name that says something about a node. -/
def Reserved (name : String) : Prop :=
  name = Keyword.id ∨ name = Keyword.type ∨ name = Keyword.confidence

instance (name : String) : Decidable (Reserved name) := inferInstanceAs (Decidable (_ ∨ _ ∨ _))

/-- What the fields of an object have to spell to make a node. -/
structure Reads (fields : Fields (Json R)) (n : Node R) : Prop where
  id : (fields.get? Keyword.id).elim (.ok none) (fun value => (readId value).map some) = .ok n.id
  types : (fields.get? Keyword.type).elim (.ok []) readTypes = .ok n.types
  confidence : (fields.get? Keyword.confidence).elim (.ok none)
    (fun value => (readConfidence value).map some) = .ok n.confidence
  properties : List.Forall₂ (fun f p => p.1 = f.1 ∧ PropertyValue.ofJson f.2 = .ok p.2)
    (fields.filter (fun f => decide (¬ Reserved f.1))) n.properties

namespace Reads
variable {fields : Fields (Json R)} {n : Node R} {value : Json R}

theorem anonymous : Reads [] (Node.anonymous : Node R) := ⟨rfl, rfl, rfl, .nil⟩

theorem consId (h : Reads fields n) {id : String} (read : readId value = .ok id) :
    Reads ((Keyword.id, value) :: fields) { n with id := some id } where
  id := by simp [Fields.get?_cons, read, Except.map]
  types := h.types
  confidence := h.confidence
  properties := h.properties

theorem consTypes (h : Reads fields n) {types : List String} (read : readTypes value = .ok types) :
    Reads ((Keyword.type, value) :: fields) { n with types := types } where
  id := h.id
  types := read
  confidence := h.confidence
  properties := h.properties

theorem consConfidence (h : Reads fields n) {c : R} (read : readConfidence value = .ok c) :
    Reads ((Keyword.confidence, value) :: fields) { n with confidence := some c } where
  id := h.id
  types := h.types
  confidence := by simp [Fields.get?_cons, read, Except.map]
  properties := h.properties

theorem consProperty (h : Reads fields n) {name : String} (free : ¬ Reserved name)
    {v : PropertyValue R} (read : PropertyValue.ofJson value = .ok v) :
    Reads ((name, value) :: fields) { n with properties := (name, v) :: n.properties } := by
  have apart := not_or.1 free
  have apart' := not_or.1 apart.2
  constructor
  case id => rw [Fields.get?_cons, if_neg (Ne.symm apart.1), h.id]
  case types => rw [Fields.get?_cons, if_neg (Ne.symm apart'.1), h.types]
  case confidence => rw [Fields.get?_cons, if_neg (Ne.symm apart'.2), h.confidence]
  case properties =>
    rw [List.filter_cons_of_pos (by simpa using free)]
    exact .cons ⟨rfl, read⟩ h.properties

end Reads

/-- Each field that is read adds one part to the node that the others make. -/
theorem reads_of_ofFields {fields : List (String × Json R)} {n : Node R}
    (h : ofFields fields = .ok n) : Reads fields n := by
  induction fields generalizing n with
  | nil =>
    rw [ofFields] at h
    cases h
    exact .anonymous
  | cons field rest ih =>
    rcases field with ⟨name, value⟩
    rw [ofFields] at h
    by_cases isId : name = Keyword.id
    · rw [if_pos isId] at h
      rcases bind_eq_ok_iff.1 h with ⟨id, hid, h⟩
      rcases bind_eq_ok_iff.1 h with ⟨n', hn, h⟩
      cases h
      exact isId ▸ (ih hn).consId hid
    rw [if_neg isId] at h
    by_cases isType : name = Keyword.type
    · rw [if_pos isType] at h
      rcases bind_eq_ok_iff.1 h with ⟨types, htypes, h⟩
      rcases bind_eq_ok_iff.1 h with ⟨n', hn, h⟩
      cases h
      exact isType ▸ (ih hn).consTypes htypes
    rw [if_neg isType] at h
    by_cases isConfidence : name = Keyword.confidence
    · rw [if_pos isConfidence] at h
      rcases bind_eq_ok_iff.1 h with ⟨c, hc, h⟩
      rcases bind_eq_ok_iff.1 h with ⟨n', hn, h⟩
      cases h
      exact isConfidence ▸ (ih hn).consConfidence hc
    rw [if_neg isConfidence] at h
    rcases bind_eq_ok_iff.1 h with ⟨v, hv, h⟩
    rcases bind_eq_ok_iff.1 h with ⟨n', hn, h⟩
    cases h
    exact (ih hn).consProperty (by simp [Reserved, isId, isType, isConfidence]) hv

theorem score_of_readConfidence {value : Json R} {c : R} (h : readConfidence value = .ok c) :
    Scalar.InUnit c := by
  unfold readConfidence at h
  cases hs : value.toScalar? with
  | none => simp [hs] at h
  | some c' =>
    simp only [hs] at h
    rcases bind_eq_ok_iff.1 h with ⟨u, checked, h⟩
    cases h
    exact checkScore_eq_ok_iff.1 checked

/-- What is true of every node that some document spells. -/
structure Spelled (n : Node R) : Prop where
  score : ∀ c, n.confidence = some c → Scalar.InUnit c
  named : ∀ f ∈ n.properties, ¬ Reserved f.1
  values : ∀ f ∈ n.properties, f.2.Spelled

theorem spelled_of_ofFields {fields : List (String × Json R)} {n : Node R}
    (h : ofFields fields = .ok n) : n.Spelled := by
  have reads := reads_of_ofFields h
  constructor
  case score =>
    intro c held
    have confidence := reads.confidence
    rw [held] at confidence
    cases found : Fields.get? fields Keyword.confidence with
    | none => simp [found] at confidence
    | some value =>
      rw [found] at confidence
      rcases map_eq_ok_iff.1 confidence with ⟨c', read, same⟩
      exact Option.some.inj same ▸ score_of_readConfidence read
  case named =>
    intro p hp
    rcases exists_mem_of_forall₂ reads.properties.flip hp with ⟨f, hf, same, -⟩
    have free := (List.mem_filter.1 hf).2
    rw [same]
    simpa using free
  case values =>
    intro p hp
    rcases exists_mem_of_forall₂ reads.properties.flip hp with ⟨f, -, -, read⟩
    exact ⟨f.2, read⟩

end Node

namespace PropertyValue

/-- A value object spells an assertion and any other object a node. -/
theorem ofJson_object_eq_ok_iff {fields : Fields (Json R)} {v : PropertyValue R} :
    ofJson (.object fields) = .ok v ↔
      (Fields.has fields Keyword.value = true ∧
        ∃ a, Assertion.readFields fields = .ok a ∧ v = .annotated a) ∨
      (Fields.has fields Keyword.value = false ∧
        ∃ n, Node.ofFields fields = .ok n ∧ v = .node n) := by
  rw [ofJson]
  cases Fields.has fields Keyword.value with
  | true =>
    cases Assertion.readFields fields with
    | ok a => simp [eq_comm]
    | error fault => simp
  | false =>
    rw [if_neg (by simp), bind_eq_ok_iff]
    simp [pure, Except.pure, eq_comm]

theorem Spelled.score {v : PropertyValue R} (h : v.Spelled) {c : R} (hc : v.confidence = some c) :
    Scalar.InUnit c := by
  rcases h with ⟨document, h⟩
  cases document with
  | null => simp [ofJson] at h
  | bool b => simp [ofJson] at h; subst h; cases hc
  | number n => simp [ofJson] at h; subst h; cases hc
  | text s => simp [ofJson] at h; subst h; cases hc
  | array items =>
    rw [ofJson] at h
    rcases bind_eq_ok_iff.1 h with ⟨items', -, h⟩
    cases h
    cases hc
  | object fields =>
    rcases ofJson_object_eq_ok_iff.1 h with ⟨-, a, ha, rfl⟩ | ⟨-, n, hn, rfl⟩
    · exact Assertion.validate_eq_ok_iff.1 (Assertion.readFields_eq_ok_iff.1 ha).valid c hc
    · exact (Node.spelled_of_ofFields hn).score c hc

theorem Spelled.node {n : Node R} (h : (PropertyValue.node n).Spelled) : n.Spelled := by
  rcases h with ⟨document, h⟩
  cases document with
  | null | bool b | number n | text s => simp [ofJson] at h
  | array items =>
    rw [ofJson] at h
    rcases bind_eq_ok_iff.1 h with ⟨items', -, h⟩
    cases h
  | object fields =>
    rcases ofJson_object_eq_ok_iff.1 h with ⟨-, a, -, same⟩ | ⟨-, n', hn, same⟩
    · cases same
    · cases same
      exact Node.spelled_of_ofFields hn

end PropertyValue

theorem Node.ofJson_object_iff {fields : Fields (Json R)} {n : Node R} :
    ofJson (.object fields) = .ok n ↔
      fields.has Keyword.value = false ∧ ofFields fields = .ok n := by
  rw [ofJson]
  cases fields.has Keyword.value <;> simp

theorem Node.spelled_of_ofJson {document : Json R} {n : Node R} (h : ofJson document = .ok n) :
    n.Spelled := by
  cases document with
  | object fields => exact spelled_of_ofFields (ofJson_object_iff.1 h).2
  | null | bool b | number n | text s | array items => simp [ofJson] at h

/-- Every member is read from an item of the list of members, or from the one that stands for it. -/
theorem exists_of_mem_readMembers {document : Json R} {nodes : List (Node R)}
    (h : readMembers document = .ok nodes) {n : Node R} (hn : n ∈ nodes) :
    ∃ item, Node.ofJson item = .ok n ∧
      (item = document ∨ ∃ items, document = .array items ∧ item ∈ items) := by
  cases document with
  | array items =>
    rcases exists_mem_of_forall₂ (mapM_eq_ok_iff.1 h).flip hn with ⟨item, hitem, read⟩
    exact ⟨item, read, .inr ⟨items, rfl, hitem⟩⟩
  | object fields =>
    rcases bind_eq_ok_iff.1 h with ⟨n', read, h⟩
    cases h
    obtain rfl := List.mem_singleton.1 hn
    exact ⟨_, read, .inl rfl⟩
  | null | bool b | number n | text s => simp [readMembers] at h

theorem Graph.spelled_of_ofJson {document : Json R} {g : Graph R}
    (h : ofJson document = .ok g) {n : Node R} (hn : n ∈ g.nodes) : n.Spelled := by
  cases document with
  | object fields =>
    cases members : Fields.get? fields Keyword.members with
    | some members' =>
      simp only [ofJson, members] at h
      rcases bind_eq_ok_iff.1 h with ⟨nodes, read, h⟩
      cases h
      rcases exists_of_mem_readMembers read hn with ⟨item, read, -⟩
      exact Node.spelled_of_ofJson read
    | none =>
      simp only [ofJson, members] at h
      rcases bind_eq_ok_iff.1 h with ⟨n', made, h⟩
      cases h
      rw [List.mem_singleton.1 hn]
      exact Node.spelled_of_ofFields made
  | null | bool b | number n | text s | array items => simp [ofJson] at h

end Credence
