import Credence.Proofs.Graph.ReadBack
import Credence.Proofs.Scalar.Binary64

/-! # The two presentations of a graph

A document without a list of members presents one node, which is the document itself. The same node
can be presented as the only member of a list. Members must not be value objects, but the document
itself is not asked whether it is one: if it is, it is read as a node that has a property under the
name of values, and what is written for this node is not read again. All other documents mean the
same in both presentations.
-/

namespace Credence
variable {R : Type}

namespace Fields

/-- The fields of the node that a document without members presents. -/
def body (fields : Fields (Json R)) : Fields (Json R) := fields.erase Keyword.context

def listed (fields : Fields (Json R)) : Fields (Json R) :=
  (insert? [] Keyword.context (fields.get? Keyword.context)).insert Keyword.members
    (.array [.object fields.body])

theorem get?_listed_members (fields : Fields (Json R)) :
    fields.listed.get? Keyword.members = some (.array [.object fields.body]) :=
  get?_insert_self _ _ _

theorem get?_listed_context (fields : Fields (Json R)) :
    fields.listed.get? Keyword.context = fields.get? Keyword.context := by
  simp [listed, get?_insert, get?_insert?, Keyword.context, Keyword.members]

theorem has_body_value (fields : Fields (Json R)) :
    fields.body.has Keyword.value = fields.has Keyword.value := by
  simp [has, body, get?_erase, Keyword.value, Keyword.context]

theorem ordered_body {fields : Fields (Json R)} (h : (Json.object fields).Ordered) :
    (Json.object fields.body).Ordered := by
  cases h with
  | object names parts =>
    exact .object (ordered_erase names _) (fun f hf => parts f (List.mem_filter.1 hf).1)

end Fields

variable [Scalar R]

/-- A document without members is read as the node that its fields make. -/
theorem Graph.ofJson_flat_iff {fields : Fields (Json R)}
    (flat : fields.has Keyword.members = false) {g : Graph R} :
    ofJson (.object fields) = .ok g ↔
      ∃ n, Node.ofFields fields.body = .ok n ∧ g = ⟨fields.get? Keyword.context, [n]⟩ := by
  have absent : fields.get? Keyword.members = none := by simpa [Fields.has] using flat
  simp only [ofJson, absent]
  constructor
  · intro h
    obtain ⟨n, read, h⟩ := bind_eq_ok_iff.1 h
    cases h
    exact ⟨n, read, rfl⟩
  · rintro ⟨n, read, rfl⟩
    exact bind_eq_ok_iff.2 ⟨n, read, rfl⟩

/-- As the only member of a list it is read alike, unless it is a value object. -/
theorem Graph.ofJson_listed_iff {fields : Fields (Json R)}
    (flat : fields.has Keyword.members = false) {g : Graph R} :
    ofJson (.object fields.listed) = .ok g ↔
      fields.has Keyword.value = false ∧ ofJson (.object fields) = .ok g := by
  rw [ofJson_flat_iff flat, ← Fields.has_body_value]
  simp only [ofJson, Fields.get?_listed_members, Fields.get?_listed_context, readMembers]
  constructor
  · intro h
    obtain ⟨nodes, made, h⟩ := bind_eq_ok_iff.1 h
    obtain ⟨n, rest, read, none, rfl⟩ := List.forall₂_cons_left_iff.1 (mapM_eq_ok_iff.1 made)
    cases none
    cases h
    obtain ⟨unmarked, read⟩ := Node.ofJson_object_iff.1 read
    exact ⟨unmarked, n, read, rfl⟩
  · rintro ⟨unmarked, n, read, rfl⟩
    have member := Node.ofJson_object_iff.2 ⟨unmarked, read⟩
    exact bind_eq_ok_iff.2 ⟨[n], mapM_eq_ok_iff.2 (.cons member .nil), rfl⟩

theorem Node.has_written_of_ofFields {fields : Fields (Json R)} {n : Node R}
    (made : ofFields fields = .ok n) (marked : fields.has Keyword.value = true) :
    n.written.has Keyword.value = true := by
  rw [Fields.has, Fields.isSome_get?_iff] at marked ⊢
  obtain ⟨f, hf, named⟩ := List.mem_map.1 marked
  have free : ¬ Reserved f.1 := named ▸ by decide
  refine Fields.mem_names_overlay.2 (.inl ?_)
  rw [PropertyValue.map_fst_toFields, (reads_of_ofFields made).map_fst]
  exact List.mem_map.2 ⟨f, List.mem_filter.2 ⟨hf, by simpa using free⟩, named⟩

/-- A graph that is read from a document without members is read back from what is written for it
exactly where the document is no value object. -/
theorem Graph.ofJson_toJson_of_flat (finite : ScoresFinite R) {fields : Fields (Json R)}
    (ordered : (Json.object fields).Ordered) (flat : fields.has Keyword.members = false)
    {g : Graph R} (made : ofJson (.object fields) = .ok g) :
    ofJson g.toJson = .ok g ↔ fields.has Keyword.value = false := by
  obtain ⟨n, read, rfl⟩ := (ofJson_flat_iff flat).1 made
  rw [ofJson_toJson_iff, List.forall_mem_singleton, Node.toJson_eq, Node.ofJson_object_iff]
  constructor
  · rintro ⟨unmarked, -⟩
    rw [← Fields.has_body_value, ← Bool.not_eq_true]
    exact fun marked => by simp [Node.has_written_of_ofFields read marked] at unmarked
  · intro unmarked
    have member : Node.ofJson (.object fields.body) = .ok n :=
      Node.ofJson_object_iff.2 ⟨fields.has_body_value.trans unmarked, read⟩
    have legible := HeldByReading.legible.nested (Fields.ordered_body ordered) member
    exact Node.ofJson_object_iff.1 (n.toJson_eq ▸ Node.ofJson_toJson finite legible)

/-- The two presentations of a document are read alike exactly where it is no value object or is
not read at all, and the graph that it is read as is read back exactly where it is none. -/
theorem Graph.presentations_agree_iff (finite : ScoresFinite R) {fields : Fields (Json R)}
    (ordered : (Json.object fields).Ordered) (flat : fields.has Keyword.members = false) :
    ((∀ g, ofJson (.object fields) = .ok g ↔ ofJson (.object fields.listed) = .ok g) ↔
      fields.has Keyword.value = false ∨ ∀ g, ofJson (.object fields) ≠ .ok g) ∧
    ∀ g, ofJson (.object fields) = .ok g →
      (ofJson g.toJson = .ok g ↔ fields.has Keyword.value = false) := by
  refine ⟨?_, fun g made => ofJson_toJson_of_flat finite ordered flat made⟩
  simp only [ofJson_listed_iff flat]
  constructor
  · intro alike
    by_cases unmarked : fields.has Keyword.value = false
    · exact .inl unmarked
    · exact .inr (fun g made => unmarked ((alike g).1 made).1)
  · rintro (unmarked | unread) g
    · simp [unmarked]
    · simp [unread g]

def personFields : Fields (Json Float) :=
  .ofList [(Keyword.id, .text "ex:ada"), (Keyword.type, Json.texts ["Person"]),
    (Keyword.context, .text "https://schema.org/"), ("name", .text "Ada")]

theorem Graph.presentations_agree_person :
    personFields.has Keyword.members = false ∧
      ∃ g, ofJson (.object personFields) = .ok g ∧ ofJson (.object personFields.listed) = .ok g ∧
        ofJson g.toJson = .ok g := by
  have flat : personFields.has Keyword.members = false := by decide
  have ordered : (Json.object personFields).Ordered := by decide +kernel
  obtain ⟨g, made⟩ := exists_eq_ok_of_isOk
    (show (ofJson (.object personFields)).isOk = true by decide +kernel)
  obtain ⟨alike, back⟩ := presentations_agree_iff Binary64.scoresFinite ordered flat
  have unmarked : personFields.has Keyword.value = false := by decide
  exact ⟨flat, g, made, (alike.2 (.inl unmarked) g).1 made, (back g made).2 unmarked⟩

/-- A value object is read as a graph where it stands alone, but not where it is listed, and the
graph is not read back. -/
theorem Graph.value_object_read_alone :
    ∃ g : Graph Float, ofJson (.object [(Keyword.value, .text "x")]) = .ok g ∧
      (∀ g', ofJson (.object (Fields.listed [(Keyword.value, Json.text (R := Float) "x")])) ≠
        .ok g') ∧ ofJson g.toJson ≠ .ok g := by
  let fields : Fields (Json Float) := [(Keyword.value, .text "x")]
  have flat : fields.has Keyword.members = false := by decide
  have marked : ¬ fields.has Keyword.value = false := by decide
  have ordered : (Json.object fields).Ordered := by decide +kernel
  obtain ⟨g, made⟩ := exists_eq_ok_of_isOk
    (show (ofJson (.object fields)).isOk = true by decide +kernel)
  refine ⟨g, made, fun g' listed => marked ((ofJson_listed_iff flat).1 listed).1, fun back => ?_⟩
  exact marked ((ofJson_toJson_of_flat Binary64.scoresFinite ordered flat made).1 back)

end Credence
