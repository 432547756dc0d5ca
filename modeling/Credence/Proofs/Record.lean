import Credence.Proofs.Fields
import Credence.Proofs.Traversal
import Credence.Record
import Credence.Vocabulary

/-! # Records read back

An object is read as a record exactly where each of its values passes the check of its field and no
field is missing. Fields that are written under distinct names are found again, so a record is read
back once each of its values is. Counts are read back as far as a document has whole numbers for
them, and choices by the names that they are found by.
-/

namespace Credence
variable {R α : Type} {fields : Fields (Json R)} {name : String}
  {read : Json R → Except (RecordFault R) α}

namespace Record

theorem required_eq_ok_iff {a : α} :
    required fields name read = .ok a ↔ ∃ v, fields.get? name = some v ∧ read v = .ok a := by
  unfold required
  cases fields.get? name <;> simp

theorem has_of_required {a : α} (h : required fields name read = .ok a) :
    fields.has name = true := by
  obtain ⟨v, found, -⟩ := required_eq_ok_iff.1 h
  simp [Fields.has, found]

theorem omissible_eq_ok_iff {part : Option α} :
    omissible fields name (readNullable read) none = .ok part ↔
      (∀ v, fields.get? name = some v → v = .null) ∧ part = none ∨
      ∃ v x, fields.get? name = some v ∧ v ≠ .null ∧ read v = .ok x ∧ part = some x := by
  unfold omissible
  cases fields.get? name with
  | none => simp [eq_comm]
  | some v =>
    cases v with
    | null => simp [readNullable, eq_comm]
    | bool b | number n | text s | array items | object fields =>
      simp [readNullable, map_eq_ok_iff, @eq_comm _ part]

/-- A part that is written, if at all, in a form that is read back. -/
theorem omissible_eq_ok (read : Json R → Except (RecordFault R) α) {part : Option α}
    {write : α → Json R} (found : fields.get? name = part.map write)
    (back : ∀ x, part = some x → readNullable read (write x) = .ok (some x)) :
    omissible fields name (readNullable read) none = .ok part := by
  unfold omissible
  rw [found]
  cases part with
  | none => rfl
  | some x => exact back x rfl

theorem required_ofList {pairs : List (String × Json R)} (distinct : (pairs.map Prod.fst).Nodup)
    {value : Json R} (listed : (name, value) ∈ pairs) :
    required (Fields.ofList pairs) name read = read value := by
  rw [required, Fields.get?_ofList_of_mem distinct listed]

theorem required_of_listed {pairs : List (String × Json R)}
    (distinct : (pairs.map Prod.fst).Nodup) (value : Json R) (listed : (name, value) ∈ pairs)
    {a : α} (back : read value = .ok a) : required (Fields.ofList pairs) name read = .ok a :=
  (required_ofList distinct listed).trans back

theorem readList_map {write : α → Json R} {as : List α} (back : ∀ a ∈ as, read (write a) = .ok a) :
    readList read (.array (as.map write)) = .ok as := by
  rw [readList, mapM_eq_ok_iff, List.forall₂_map_left_iff, List.forall₂_same]
  exact back

/-- A count of things in memory is a word of 64 bits; for larger ones a document has no whole
numbers. -/
def IsWord (n : Nat) : Prop := n ≤ 18446744073709551615

instance decidableIsWord (n : Nat) : Decidable (IsWord n) := inferInstanceAs (Decidable (_ ≤ _))

theorem readCount_ofNat_iff [Scalar R] {n : Nat} :
    readCount (R := R) (Json.ofNat n) = .ok n ↔ IsWord n := by
  unfold Json.ofNat Number.ofInt IsWord
  split
  · next fits =>
    simp only [readCount, Int.natCast_nonneg, if_true, Int.toNat_natCast, true_iff]
    omega
  · next beyond =>
    simp only [readCount, reduceCtorEq, false_iff]
    omega

end Record

theorem Named.ofJson_toJson [Named α] {a : α} (found : find? (Named.name a) = some a) :
    ofJson (R := R) (toJson a) = .ok a := by
  simp only [toJson, ofJson, ofText, found]

/-- The fields of an object pass a rule: what stands under its name passes its check, and something
does unless it may be left out. -/
structure FieldRule.Passes (rule : FieldRule R) (fields : Fields (Json R)) : Prop where
  check : ∀ v, fields.get? rule.name = some v → rule.check v = .ok ()
  present : rule.optional = false → fields.has rule.name = true

theorem FieldRule.Passes.required {a : α} (h : Record.required fields name read = .ok a) :
    (FieldRule.required name read).Passes fields := by
  refine ⟨fun v found => ?_, fun _ => Record.has_of_required h⟩
  obtain ⟨v', found', back⟩ := Record.required_eq_ok_iff.1 h
  cases found.symm.trans found'
  exact map_eq_ok_iff.2 ⟨a, back, rfl⟩

theorem FieldRule.Passes.omissible {default a : α}
    (h : Record.omissible fields name read default = .ok a) :
    (FieldRule.omissible name read).Passes fields := by
  refine ⟨fun v found => ?_, fun needed => by cases needed⟩
  simp only [FieldRule.omissible] at found
  simp only [Record.omissible, found] at h
  exact map_eq_ok_iff.2 ⟨a, h, rfl⟩

namespace Shape
variable {shape : Shape R}

theorem checkField_eq_ok {value : Json R}
    (h : ∀ rule ∈ shape.fields, rule.name = name → rule.check value = .ok ()) :
    shape.checkField name value = .ok () := by
  unfold checkField
  cases found : shape.fields.find? (fun rule => rule.name == name) with
  | none => rfl
  | some rule =>
    have named : rule.name = name := by simpa using List.find?_some found
    exact h rule (List.mem_of_find?_eq_some found) named

/-- An object is read as a record as it is, or not at all. -/
theorem readObject_eq_ok_iff {fields' : Fields (Json R)} :
    shape.readObject fields = .ok fields' ↔ fields' = fields ∧
      (∀ f ∈ fields, shape.checkField f.1 f.2 = .ok ()) ∧
      ∀ rule ∈ shape.fields, rule.optional = false → fields.has rule.name = true := by
  unfold readObject
  rw [bind_eq_ok_iff]
  cases missing : shape.fields.find? (fun rule => !rule.optional && !fields.has rule.name) with
  | some rule =>
    have absent := List.find?_some missing
    have declared := List.mem_of_find?_eq_some missing
    rw [Bool.and_eq_true, Bool.not_eq_true', Bool.not_eq_true'] at absent
    constructor
    · rintro ⟨-, -, h⟩
      cases h
    · rintro ⟨-, -, present⟩
      rw [present rule declared absent.1] at absent
      cases absent.2
  | none =>
    have present := List.find?_eq_none.1 missing
    constructor
    · rintro ⟨u, checked, h⟩
      refine ⟨(Except.ok.inj h).symm, forM_eq_ok_iff.1 checked, fun rule declared needed => ?_⟩
      simpa [needed] using present rule declared
    · rintro ⟨rfl, checked, -⟩
      exact ⟨(), forM_eq_ok_iff.2 checked, rfl⟩

theorem eq_of_read {fields' : Fields (Json R)} (h : shape.read (.object fields) = .ok fields') :
    fields' = fields :=
  (readObject_eq_ok_iff.1 h).1

/-- Fields in name order that pass all rules pass field by field. -/
theorem checkField_of_passes (ordered : Fields.Ordered fields)
    (passes : ∀ rule ∈ shape.fields, rule.Passes fields) :
    ∀ f ∈ fields, shape.checkField f.1 f.2 = .ok () := by
  rintro ⟨name, v⟩ hf
  refine checkField_eq_ok (fun rule declared named => (passes rule declared).check v ?_)
  rw [named]
  exact Fields.get?_eq_some_of_mem ordered hf

theorem read_object (ordered : Fields.Ordered fields)
    (passes : ∀ rule ∈ shape.fields, rule.Passes fields) :
    shape.read (.object fields) = .ok fields :=
  readObject_eq_ok_iff.2 ⟨rfl, checkField_of_passes ordered passes,
    fun rule declared => (passes rule declared).present⟩

theorem read_ofFields {pairs : List (String × Json R)}
    (passes : ∀ rule ∈ shape.fields, rule.Passes (Fields.ofList pairs)) :
    shape.read (Json.ofFields pairs) = .ok (Fields.ofList pairs) :=
  read_object (Fields.ordered_ofList pairs) passes

end Shape
end Credence
