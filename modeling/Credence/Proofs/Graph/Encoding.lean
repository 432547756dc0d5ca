import Credence.Merge.Reconcile
import Credence.Proofs.Fields
import Credence.Proofs.Graph.Decoding

/-! # How values are written that are held with another confidence

What is written for a value held with another confidence depends only on what is written for the
value itself. So two values that are written alike are still written alike once both are held
with one confidence.
-/

namespace Credence
variable {R : Type}

/-- A document value held with a confidence. An object states it, an array has none, and any
other value becomes the value of an object that states it. -/
def Json.held (document confidence : Json R) : Json R :=
  match document with
  | .object fields => .object (Fields.insert fields Keyword.confidence confidence)
  | .array items => .array items
  | value => .object [(Keyword.confidence, confidence), (Keyword.value, value)]

theorem Literal.held_toJson (l : Literal R) (confidence : Json R) :
    l.toJson.held confidence =
      .object [(Keyword.confidence, confidence), (Keyword.value, l.toJson)] := by
  cases l with
  | boolean b => rfl
  | number n => rfl
  | text s => rfl

variable [Scalar R]

theorem PropertyValue.toItems_eq_map (items : List (PropertyValue R)) :
    toItems items = items.map toJson := by
  induction items with
  | nil => rfl
  | cons v rest ih => rw [toItems, List.map_cons, ih]

theorem PropertyValue.toFields_eq_map (fields : List (String × PropertyValue R)) :
    toFields fields = fields.map (fun f => (f.1, f.2.toJson)) := by
  induction fields with
  | nil => rfl
  | cons f rest ih =>
    rcases f with ⟨name, v⟩
    rw [toFields, List.map_cons, ih]

theorem PropertyValue.map_fst_toFields (fields : List (String × PropertyValue R)) :
    (toFields fields).map Prod.fst = fields.map Prod.fst := by
  rw [toFields_eq_map, List.map_map]
  rfl

theorem Assertion.toJson_ofLiteral_held (l : Literal R) {c : R} {n : Number R}
    (finite : Number.ofScalar? c = some n) :
    ({ ofLiteral l with confidence := some c } : Assertion R).toJson =
      l.toJson.held (.number n) := by
  rw [Literal.held_toJson]
  simp only [toJson, ofLiteral, Option.bind_some, finite]
  rfl

theorem Assertion.toJson_held (a : Assertion R) {c : R} {n : Number R}
    (finite : Number.ofScalar? c = some n) :
    ({ a with confidence := some c } : Assertion R).toJson = a.toJson.held (.number n) := by
  unfold toJson Json.held
  simp only [Option.bind_some, finite, Option.map_some]
  congr 1
  have valued := Fields.ordered_insert (Fields.ordered_ofList a.keywords) Keyword.value
    a.value.toJson
  apply Fields.eq_of_get?_eq
  · exact Fields.ordered_insert? (Fields.ordered_insert? (Fields.ordered_insert?
      (Fields.ordered_insert? valued _ _) _ _) _ _) _ _
  · exact Fields.ordered_insert (Fields.ordered_insert? (Fields.ordered_insert?
      (Fields.ordered_insert? (Fields.ordered_insert? valued _ _) _ _) _ _) _ _) _ _
  -- The parts written after the confidence stand under other names.
  · intro name
    simp only [Fields.get?_insert, Fields.get?_insert?]
    by_cases here : name = Keyword.confidence
    · subst here
      simp [Keyword.confidence, Keyword.source, Keyword.extractedAt, Keyword.method]
    · simp [here]

theorem Node.toJson_held (n : Node R) (free : Keyword.confidence ∉ n.properties.map Prod.fst)
    {c : R} {number : Number R} (finite : Number.ofScalar? c = some number) :
    ({ n with confidence := some c } : Node R).toJson = n.toJson.held (.number number) := by
  rcases n with ⟨id, types, confidence, properties⟩
  unfold toJson Json.held
  simp only [Option.bind_some, finite, Option.map_some]
  congr 1
  have typed := Fields.ordered_insert? (Fields.ordered_insert? Fields.ordered_nil Keyword.id
    (id.map (Json.text (R := R)))) Keyword.type (typesJson? types)
  rw [← PropertyValue.map_fst_toFields] at free
  apply Fields.eq_of_get?_eq
  · exact Fields.ordered_overlay (Fields.ordered_insert? typed _ _) _
  · exact Fields.ordered_insert (Fields.ordered_overlay (Fields.ordered_insert? typed _ _) _) _ _
  · intro name
    rw [Fields.get?_insert]
    by_cases here : name = Keyword.confidence
    · subst here
      rw [Fields.get?_overlay_of_notMem free, Fields.get?_insert?, if_pos rfl, if_pos rfl]
      rfl
    · rw [if_neg here]
      apply Fields.get?_overlay_congr
      simp only [Fields.get?_insert?, if_neg here]

theorem PropertyValue.toJson_withConfidence {v w : PropertyValue R} (spelled : v.Spelled) {c : R}
    {n : Number R} (finite : Number.ofScalar? c = some n) (h : v.withConfidence c = .ok w) :
    w.toJson = v.toJson.held (.number n) := by
  cases v with
  | literal l =>
    rcases map_eq_ok_iff.1 h with ⟨a, ha, rfl⟩
    rcases bind_eq_ok_iff.1 ha with ⟨-, -, ha⟩
    cases ha
    exact Assertion.toJson_ofLiteral_held l finite
  | annotated a =>
    rcases map_eq_ok_iff.1 h with ⟨b, hb, rfl⟩
    rcases bind_eq_ok_iff.1 hb with ⟨-, -, hb⟩
    cases hb
    exact Assertion.toJson_held a finite
  | node m =>
    cases h
    refine Node.toJson_held m (fun taken => ?_) finite
    rcases List.mem_map.1 taken with ⟨f, hf, same⟩
    exact spelled.node.named f hf (.inr (.inr same))
  | list items =>
    cases h
    rfl

end Credence
