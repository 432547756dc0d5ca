import Credence.Proofs.Graph.Encoding
import Credence.Proofs.Graph.Throughout
import Credence.Proofs.Json.Ordered

/-! # Graphs read back

All that is read from a document in name order is well-formed, at any depth: confidences are
scores, properties and keywords are in name order, and no property has a name that means something
else. A graph that is well-formed throughout is read back from what is written for it, as far as
its instants are.
-/

namespace Credence
variable {R : Type} [Scalar R]

namespace Node

/-- What is true of every node that is read from an object in name order. -/
structure WellFormed (n : Node R) : Prop where
  score : ∀ c, n.confidence = some c → Scalar.InUnit c
  ordered : Fields.Ordered n.properties
  named : ∀ f ∈ n.properties, ¬ Reserved f.1
  unmarked : ∀ f ∈ n.properties, f.1 ≠ Keyword.value

theorem Reads.map_fst {fields : Fields (Json R)} {n : Node R} (h : Reads fields n) :
    n.properties.map Prod.fst =
      (fields.filter (fun f => decide (¬ Reserved f.1))).map Prod.fst :=
  map_eq_map_of_forall₂ (h.properties.imp (fun _ _ same => same.1))

theorem wellFormed_of_ofFields {fields : Fields (Json R)} (ordered : Fields.Ordered fields)
    (unmarked : Fields.has fields Keyword.value = false) {n : Node R}
    (h : ofFields fields = .ok n) : n.WellFormed := by
  have spelled := spelled_of_ofFields h
  have names := (reads_of_ofFields h).map_fst
  constructor
  case score => exact spelled.score
  case ordered => exact Fields.ordered_of_map_fst_eq (List.Pairwise.filter _ ordered) names
  case named => exact spelled.named
  case unmarked =>
    intro f hf marked
    have mem : f.1 ∈ n.properties.map Prod.fst := List.mem_map_of_mem hf
    rw [names, List.mem_map] at mem
    rcases mem with ⟨field, hfield, same⟩
    have found : (Fields.get? fields Keyword.value).isSome :=
      Fields.isSome_get?_iff.2
        (List.mem_map.2 ⟨field, (List.mem_filter.1 hfield).1, same.trans marked⟩)
    rw [Fields.has, found] at unmarked
    cases unmarked

end Node

namespace PropertyValue

theorem ofItems_eq_mapM (items : List (Json R)) : ofItems items = items.mapM ofJson := by
  induction items with
  | nil => rw [ofItems]; rfl
  | cons item rest ih => rw [ofItems, List.mapM_cons, ih]

end PropertyValue

/-- Two conditions that hold of the assertions and of the nodes that are read from objects in name
order. -/
structure HeldByReading (A : Assertion R → Prop) (N : Node R → Prop) : Prop where
  assertion : ∀ {fields a}, Fields.Ordered fields → (∀ f ∈ fields, f.2.Ordered) →
    Assertion.readFields fields = .ok a → A a
  node : ∀ {fields n}, Fields.Ordered fields → Fields.has fields Keyword.value = false →
    Node.ofFields fields = .ok n → N n

namespace HeldByReading
variable {A : Assertion R → Prop} {N : Node R → Prop}

/-- They hold at any depth of what is read from a document in name order. -/
theorem value (h : HeldByReading A N) {document : Json R} (ordered : document.Ordered)
    {v : PropertyValue R} (made : PropertyValue.ofJson document = .ok v) : v.Throughout A N := by
  induction ordered generalizing v with
  | null =>
    rw [PropertyValue.ofJson] at made
    cases made
  | bool b =>
    rw [PropertyValue.ofJson] at made
    cases made
    exact .literal _
  | number n =>
    rw [PropertyValue.ofJson] at made
    cases made
    exact .literal _
  | text s =>
    rw [PropertyValue.ofJson] at made
    cases made
    exact .literal _
  | array parts ih =>
    rw [PropertyValue.ofJson, PropertyValue.ofItems_eq_mapM] at made
    rcases bind_eq_ok_iff.1 made with ⟨vs, read, made⟩
    cases made
    refine .list (fun w hw => ?_)
    rcases exists_mem_of_forall₂ (mapM_eq_ok_iff.1 read).flip hw with ⟨item, hitem, read⟩
    exact ih item hitem read
  | object names parts ih =>
    rcases PropertyValue.ofJson_object_eq_ok_iff.1 made with
      ⟨-, a, read, rfl⟩ | ⟨unmarked, n, read, rfl⟩
    · exact .annotated (h.assertion names parts read)
    · refine .node (h.node names unmarked read) (fun p hp => ?_)
      rcases exists_mem_of_forall₂ (Node.reads_of_ofFields read).properties.flip hp with
        ⟨f, hf, -, read⟩
      exact ih f (List.mem_filter.1 hf).1 read

theorem nested (h : HeldByReading A N) {document : Json R} (ordered : document.Ordered)
    {n : Node R} (made : Node.ofJson document = .ok n) :
    (PropertyValue.node n).Throughout A N := by
  cases document with
  | object fields =>
    obtain ⟨unmarked, read⟩ := Node.ofJson_object_iff.1 made
    exact h.value ordered (PropertyValue.ofJson_object_eq_ok_iff.2 (.inr ⟨unmarked, n, read, rfl⟩))
  | null | bool b | number n | text s | array items => simp [Node.ofJson] at made

theorem wellFormed :
    HeldByReading (R := R) Assertion.WellFormed Node.WellFormed where
  assertion names parts read := Assertion.wellFormed_of_readFields names parts read
  node names unmarked read := Node.wellFormed_of_ofFields names unmarked read

theorem dated : HeldByReading (R := R) Assertion.Dated (fun _ => True) where
  assertion _ _ read := Assertion.dated_of_readFields read
  node _ _ _ := trivial

/-- What is read from documents is well-formed, and its instants are read back. -/
theorem legible :
    HeldByReading (R := R) (fun a => a.WellFormed ∧ a.Dated) Node.WellFormed where
  assertion names parts read :=
    ⟨Assertion.wellFormed_of_readFields names parts read, Assertion.dated_of_readFields read⟩
  node names unmarked read := Node.wellFormed_of_ofFields names unmarked read

theorem members (h : HeldByReading A N) {members : Json R} (ordered : members.Ordered)
    {nodes : List (Node R)} (made : readMembers members = .ok nodes) :
    ∀ n ∈ nodes, (PropertyValue.node n).Throughout A N := by
  intro n hn
  rcases exists_of_mem_readMembers made hn with ⟨item, read, rfl | ⟨items, rfl, hitem⟩⟩
  · exact h.nested ordered read
  · cases ordered with
    | array parts => exact h.nested (parts item hitem) read

end HeldByReading

/-- A graph that is read from a document with member nodes. -/
def Graph.Decoded (g : Graph R) : Prop :=
  ∃ fields, (Json.object fields).Ordered ∧ Fields.has fields Keyword.members = true ∧
    Graph.ofJson (.object fields) = .ok g

/-- What is true of every graph that is read from a document with member nodes. -/
structure Graph.WellFormed (g : Graph R) : Prop where
  context : ∀ c, g.context = some c → c.Ordered
  nodes : g.Throughout Assertion.WellFormed Node.WellFormed

/-- The context and the member nodes of a graph that is read from a document. -/
theorem Graph.Decoded.exists_members {g : Graph R} (h : g.Decoded) :
    (∀ c, g.context = some c → c.Ordered) ∧
      ∃ members : Json R, members.Ordered ∧ readMembers members = .ok g.nodes := by
  rcases h with ⟨fields, ordered, listed, made⟩
  cases found : Fields.get? fields Keyword.members with
  | none => simp [Fields.has, found] at listed
  | some members =>
    simp only [ofJson, found] at made
    rcases bind_eq_ok_iff.1 made with ⟨nodes, listing, made⟩
    cases made
    cases ordered with
    | object names parts =>
      exact ⟨fun c hc => parts _ (Fields.mem_of_get?_eq_some hc), members,
        parts _ (Fields.mem_of_get?_eq_some found), listing⟩

theorem Graph.Decoded.throughout {A : Assertion R → Prop} {N : Node R → Prop} {g : Graph R}
    (h : g.Decoded) (held : HeldByReading A N) : g.Throughout A N := by
  rcases h.exists_members with ⟨-, members, ordered, listing⟩
  exact held.members ordered listing

theorem Graph.Decoded.wellFormed {g : Graph R} (h : g.Decoded) : g.WellFormed :=
  ⟨h.exists_members.1, h.throughout .wellFormed⟩

namespace Node

theorem Reads.ofFields_eq_ok {fields : Fields (Json R)} (ordered : Fields.Ordered fields)
    {n : Node R} (h : Reads fields n) : ofFields fields = .ok n := by
  induction fields generalizing n with
  | nil =>
    rcases n with ⟨id, types, confidence, properties⟩
    cases h.id
    cases h.types
    cases h.confidence
    cases h.properties
    rw [ofFields]
    rfl
  | cons field rest ih =>
    rcases field with ⟨name, value⟩
    rcases n with ⟨id, types, confidence, properties⟩
    rcases Fields.ordered_cons.1 ordered with ⟨above, behind⟩
    have absent : Fields.get? rest name = none := Fields.get?_eq_none_of_lt above
    rw [ofFields]
    by_cases isId : name = Keyword.id
    · subst isId
      rcases map_eq_ok_iff.1 h.id with ⟨id', read, same⟩
      cases same
      have others : Reads rest ⟨none, types, confidence, properties⟩ :=
        ⟨by rw [absent]; rfl, h.types, h.confidence, h.properties⟩
      rw [if_pos rfl]
      exact bind_eq_ok_iff.2 ⟨id', read, bind_eq_ok_iff.2 ⟨_, ih behind others, rfl⟩⟩
    rw [if_neg isId]
    by_cases isType : name = Keyword.type
    · subst isType
      have others : Reads rest ⟨id, [], confidence, properties⟩ :=
        ⟨h.id, by rw [absent]; rfl, h.confidence, h.properties⟩
      rw [if_pos rfl]
      exact bind_eq_ok_iff.2 ⟨types, h.types, bind_eq_ok_iff.2 ⟨_, ih behind others, rfl⟩⟩
    rw [if_neg isType]
    by_cases isConfidence : name = Keyword.confidence
    · subst isConfidence
      rcases map_eq_ok_iff.1 h.confidence with ⟨c, read, same⟩
      cases same
      have others : Reads rest ⟨id, types, none, properties⟩ :=
        ⟨h.id, h.types, by rw [absent]; rfl, h.properties⟩
      rw [if_pos rfl]
      exact bind_eq_ok_iff.2 ⟨c, read, bind_eq_ok_iff.2 ⟨_, ih behind others, rfl⟩⟩
    rw [if_neg isConfidence]
    have free : ¬ Reserved name := by simp [Reserved, isId, isType, isConfidence]
    rcases h with ⟨hid, htypes, hconfidence, hproperties⟩
    rw [Fields.get?_cons, if_neg (Ne.symm isId)] at hid
    rw [Fields.get?_cons, if_neg (Ne.symm isType)] at htypes
    rw [Fields.get?_cons, if_neg (Ne.symm isConfidence)] at hconfidence
    rw [List.filter_cons_of_pos (by simpa using free)] at hproperties
    cases hproperties with
    | @cons _ p _ properties hp hrest =>
      rcases p with ⟨name', v⟩
      rcases hp with ⟨rfl, read⟩
      have others : Reads rest ⟨id, types, confidence, properties⟩ :=
        ⟨hid, htypes, hconfidence, hrest⟩
      exact bind_eq_ok_iff.2 ⟨v, read, bind_eq_ok_iff.2 ⟨_, ih behind others, rfl⟩⟩

/-- The fields that are written for what is said about a node. -/
def head (n : Node R) : Fields (Json R) :=
  ((Fields.insert? [] Keyword.id (n.id.map .text)).insert? Keyword.type
    (typesJson? n.types)).insert? Keyword.confidence
    ((n.confidence.bind Number.ofScalar?).map .number)

def written (n : Node R) : Fields (Json R) :=
  Fields.overlay n.head (PropertyValue.toFields n.properties)

theorem toJson_eq (n : Node R) : n.toJson = .object n.written := by
  rcases n with ⟨id, types, confidence, properties⟩
  rw [toJson]
  rfl

theorem ordered_head (n : Node R) : Fields.Ordered n.head :=
  Fields.ordered_insert? (Fields.ordered_insert? (Fields.ordered_insert? Fields.ordered_nil _ _)
    _ _) _ _

theorem ordered_written (n : Node R) : Fields.Ordered n.written :=
  Fields.ordered_overlay n.ordered_head _

theorem ordered_typesJson? {R : Type} {types : List String} {j : Json R}
    (h : typesJson? types = some j) : j.Ordered := by
  match types with
  | [] => cases h
  | [type] =>
    cases h
    exact .text type
  | first :: second :: rest =>
    cases h
    exact .array (List.forall_mem_map.2 (fun word _ => .text word))

theorem ordered_object_head (n : Node R) : (Json.object n.head).Ordered := by
  rw [head]
  exact ((Json.Ordered.empty.insert? _ (.of_map .text)).insert? _
    (fun j => ordered_typesJson?)).insert? _ (.of_map .number)

theorem get?_head_of_not_reserved (n : Node R) {name : String} (free : ¬ Reserved name) :
    n.head.get? name = none := by
  have apart := not_or.1 free
  have apart' := not_or.1 apart.2
  rw [head, Fields.get?_insert?, if_neg apart'.2, Fields.get?_insert?, if_neg apart'.1,
    Fields.get?_insert?, if_neg apart.1, Fields.get?_nil]

theorem get?_toFields_eq_none {n : Node R} {name : String} (free : ∀ f ∈ n.properties, f.1 ≠ name) :
    Fields.get? (PropertyValue.toFields n.properties) name = none := by
  rw [Fields.get?_eq_none_iff, Fields.names, PropertyValue.map_fst_toFields]
  intro taken
  rcases List.mem_map.1 taken with ⟨f, hf, same⟩
  exact free f hf same

theorem WellFormed.ordered_toFields {n : Node R} (h : n.WellFormed) :
    Fields.Ordered (PropertyValue.toFields n.properties) :=
  Fields.ordered_of_map_fst_eq h.ordered (PropertyValue.map_fst_toFields n.properties)

theorem WellFormed.get?_toFields_of_reserved {n : Node R} (h : n.WellFormed) {name : String}
    (reserved : Reserved name) :
    Fields.get? (PropertyValue.toFields n.properties) name = none :=
  get?_toFields_eq_none (fun f hf same => h.named f hf (same ▸ reserved))

theorem WellFormed.get?_written_of_reserved {n : Node R} (h : n.WellFormed) {name : String}
    (reserved : Reserved name) : n.written.get? name = n.head.get? name := by
  rw [written, Fields.get?_overlay h.ordered_toFields, h.get?_toFields_of_reserved reserved]
  simp

theorem WellFormed.filter_written {n : Node R} (h : n.WellFormed) :
    n.written.filter (fun f => decide (¬ Reserved f.1)) = PropertyValue.toFields n.properties := by
  apply Fields.eq_of_get?_eq (List.Pairwise.filter _ n.ordered_written) h.ordered_toFields
  intro name
  rw [Fields.get?_filter n.written (fun name => decide (¬ Reserved name))]
  by_cases reserved : Reserved name
  · simp [reserved, h.get?_toFields_of_reserved reserved]
  · rw [written, Fields.get?_overlay h.ordered_toFields, get?_head_of_not_reserved n reserved]
    simp [reserved]

theorem WellFormed.has_written {n : Node R} (h : n.WellFormed) :
    Fields.has n.written Keyword.value = false := by
  have free : ¬ Reserved Keyword.value := by decide
  rw [Fields.has, written, Fields.get?_overlay h.ordered_toFields,
    get?_toFields_eq_none h.unmarked, get?_head_of_not_reserved n free]
  rfl

theorem readTypes_typesJson? {R : Type} (types : List String) :
    (typesJson? (R := R) types).elim (.ok []) readTypes = .ok types := by
  have texts (words : List String) : readTypes (R := R) (Json.texts words) = .ok words := by
    rw [Json.texts, readTypes, mapM_eq_ok_iff, List.forall₂_map_left_iff, List.forall₂_same]
    exact fun word _ => rfl
  match types with
  | [] => rfl
  | [type] => rfl
  | first :: second :: rest => exact texts _

theorem readConfidence_scalar {c : R} (unit : Scalar.InUnit c) :
    readConfidence (.number (.scalar c)) = .ok c :=
  bind_eq_ok_iff.2 ⟨(), checkScore_eq_ok_iff.2 unit, rfl⟩

theorem WellFormed.get?_written {n : Node R} (h : n.WellFormed) (finite : ScoresFinite R) :
    n.written.get? Keyword.id = n.id.map .text ∧
      n.written.get? Keyword.type = typesJson? n.types ∧
      n.written.get? Keyword.confidence = n.confidence.map (fun c => .number (.scalar c)) := by
  rw [h.get?_written_of_reserved (.inl rfl), h.get?_written_of_reserved (.inr (.inl rfl)),
    h.get?_written_of_reserved (.inr (.inr rfl)), ← finite.bind_ofScalar? h.score]
  simp [head, Fields.get?_insert?, Keyword.id, Keyword.type, Keyword.confidence]

/-- A well-formed node is read back from what is written for it, if the values of its properties
are. -/
theorem WellFormed.ofFields_written {n : Node R} (h : n.WellFormed) (finite : ScoresFinite R)
    (values : ∀ f ∈ n.properties, PropertyValue.ofJson f.2.toJson = .ok f.2) :
    ofFields n.written = .ok n := by
  obtain ⟨hid, htypes, hconfidence⟩ := h.get?_written finite
  apply Reads.ofFields_eq_ok n.ordered_written
  constructor
  case id =>
    rw [hid]
    cases n.id with
    | none => rfl
    | some id => rfl
  case types => rw [htypes, readTypes_typesJson?]
  case confidence =>
    rw [hconfidence]
    cases held : n.confidence with
    | none => rfl
    | some c => exact map_eq_ok_iff.2 ⟨c, readConfidence_scalar (h.score c held), rfl⟩
  case properties =>
    rw [h.filter_written, PropertyValue.toFields_eq_map, List.forall₂_map_left_iff,
      List.forall₂_same]
    exact fun f hf => ⟨rfl, values f hf⟩

end Node

theorem PropertyValue.ordered_toJson {v : PropertyValue R}
    (h : v.Throughout Assertion.WellFormed Node.WellFormed) : v.toJson.Ordered := by
  induction h with
  | literal l =>
    rw [toJson]
    exact l.ordered_toJson
  | annotated holds =>
    rw [toJson]
    exact holds.ordered_toJson
  | @node n holds values ih =>
    rw [toJson, Node.toJson_eq, Node.written, toFields_eq_map]
    refine n.ordered_object_head.overlay (fun f hf => ?_)
    rcases List.mem_map.1 hf with ⟨p, hp, rfl⟩
    exact ih p hp
  | list parts ih =>
    rw [toJson, toItems_eq_map]
    exact .array (List.forall_mem_map.2 ih)

/-- What is well-formed at any depth is read back from what is written for it. -/
theorem PropertyValue.ofJson_toJson (finite : ScoresFinite R) {v : PropertyValue R}
    (h : v.Throughout (fun a => a.WellFormed ∧ a.Dated) Node.WellFormed) :
    ofJson v.toJson = .ok v := by
  induction h with
  | literal l =>
    rw [toJson]
    cases l with
    | boolean b => rw [Literal.toJson, ofJson]
    | number n => rw [Literal.toJson, ofJson]
    | text s => rw [Literal.toJson, ofJson]
  | @annotated a holds =>
    rw [toJson, Assertion.toJson_eq, ofJson_object_eq_ok_iff]
    exact .inl ⟨holds.1.has_written, a, holds.1.readFields_written holds.2 finite, rfl⟩
  | @node n holds values ih =>
    rw [toJson, Node.toJson_eq, ofJson_object_eq_ok_iff]
    exact .inr ⟨holds.has_written, n, holds.ofFields_written finite ih, rfl⟩
  | @list items parts ih =>
    rw [toJson, ofJson, toItems_eq_map, ofItems_eq_mapM]
    refine bind_eq_ok_iff.2 ⟨items, ?_, rfl⟩
    rw [mapM_eq_ok_iff, List.forall₂_map_left_iff, List.forall₂_same]
    exact ih

theorem Node.ofJson_toJson (finite : ScoresFinite R) {n : Node R}
    (h : (PropertyValue.node n).Throughout (fun a => a.WellFormed ∧ a.Dated) WellFormed) :
    ofJson n.toJson = .ok n := by
  have holds := holds_of_throughout h
  have values := fun f hf => PropertyValue.ofJson_toJson finite (values_of_throughout h f hf)
  rw [toJson_eq, ofJson_object_iff]
  exact ⟨holds.has_written, holds.ofFields_written finite values⟩

namespace Graph

/-- Every instant in a graph is read back from its text. -/
def Dated (g : Graph R) : Prop := g.Throughout Assertion.Dated (fun _ => True)

theorem Decoded.dated {g : Graph R} (h : g.Decoded) : g.Dated := h.throughout .dated

theorem WellFormed.inUnit {g : Graph R} (h : g.WellFormed) :
    ∀ c ∈ g.confidences, Scalar.InUnit c :=
  h.nodes.inUnit (fun _ ha => ha.score) (fun _ hn => hn.score)

/-- A graph is read back from what is written for it exactly where each of its nodes is. -/
theorem ofJson_toJson_iff {g : Graph R} :
    ofJson g.toJson = .ok g ↔ ∀ n ∈ g.nodes, Node.ofJson n.toJson = .ok n := by
  rcases g with ⟨context, nodes⟩
  have members : readMembers (.array (nodes.map Node.toJson)) = .ok nodes ↔
      ∀ n ∈ nodes, Node.ofJson n.toJson = .ok n := by
    rw [readMembers, mapM_eq_ok_iff, List.forall₂_map_left_iff, List.forall₂_same]
  have named : ((Fields.insert? [] Keyword.context context).insert Keyword.members
      (.array (nodes.map Node.toJson))).get? Keyword.context = context := by
    simp [Fields.get?_insert, Fields.get?_insert?, Keyword.context, Keyword.members]
  rw [← members, toJson, ofJson, Fields.get?_insert_self, named, bind_eq_ok_iff]
  constructor
  · rintro ⟨nodes', read, same⟩
    cases same
    exact read
  · exact fun read => ⟨nodes, read, rfl⟩

theorem WellFormed.ofJson_toJson {g : Graph R} (h : g.WellFormed) (dated : g.Dated)
    (finite : ScoresFinite R) : ofJson g.toJson = .ok g := by
  have legible : g.Throughout (fun a => a.WellFormed ∧ a.Dated) Node.WellFormed := by
    simpa using h.nodes.and dated
  exact ofJson_toJson_iff.2 (fun n hn => Node.ofJson_toJson finite (legible n hn))

/-- A graph whose instants are legible is read from a document exactly where it is well-formed. -/
theorem decoded_iff {g : Graph R} (dated : g.Dated) (finite : ScoresFinite R) :
    g.Decoded ↔ g.WellFormed := by
  refine ⟨Decoded.wellFormed, fun h => ⟨_, ?_, ?_, h.ofJson_toJson dated finite⟩⟩
  · have nodes : (Json.array (g.nodes.map Node.toJson)).Ordered :=
      .array (List.forall_mem_map.2 (fun n hn => PropertyValue.ordered_toJson (h.nodes n hn)))
    exact (Json.Ordered.empty.insert? _ h.context).insert _ nodes
  · rw [Fields.has, Fields.get?_insert_self]
    rfl

end Graph
end Credence
