import Credence.Proofs.Json.Number
import Credence.Proofs.Json.Quoted

/-! # The canonical text determines the document

The first character of a text tells the kind of a document, and what is written for a document
ends where a delimiter or nothing follows. So a document and what follows it can be told from what
is written, and two documents of one text are equal.
-/

namespace Credence

namespace Json

/-- Nothing, or something that begins with a delimiter. -/
def Ends (rest : List Char) : Prop := ∀ c ∈ rest.head?, Delimiter c

theorem ends_nil : Ends [] := by simp [Ends]

theorem ends_cons {c : Char} (h : Delimiter c) (rest : List Char) : Ends (c :: rest) := by
  simpa [Ends] using h

/-- Texts without delimiters end where what follows begins. -/
theorem append_inj_of_ends {xs ys rest rest' : List Char} (hx : ∀ c ∈ xs, ¬ Delimiter c)
    (hy : ∀ c ∈ ys, ¬ Delimiter c) (hr : Ends rest) (hr' : Ends rest')
    (h : xs ++ rest = ys ++ rest') : xs = ys ∧ rest = rest' := by
  induction xs generalizing ys with
  | nil =>
    cases ys with
    | nil => exact ⟨rfl, h⟩
    | cons y ys =>
      rw [List.nil_append, List.cons_append] at h
      exact absurd (hr y (by simp [h])) (hy y List.mem_cons_self)
  | cons x xs ih =>
    cases ys with
    | nil =>
      rw [List.nil_append, List.cons_append] at h
      exact absurd (hr' x (by simp [← h])) (hx x List.mem_cons_self)
    | cons y ys =>
      rw [List.cons_append, List.cons_append, List.cons.injEq] at h
      obtain ⟨same, behind⟩ := ih (fun c hc => hx c (List.mem_cons_of_mem x hc))
        (fun c hc => hy c (List.mem_cons_of_mem y hc)) h.2
      exact ⟨by rw [h.1, same], behind⟩

/-- The kind of document that a character begins. -/
def kindOfFirst (c : Char) : String :=
  if c = 'n' then "null"
  else if c = 't' ∨ c = 'f' then "boolean"
  else if c = '"' then "string"
  else if c = '[' then "array"
  else if c = '\x7b' then "object"
  else "number"

theorem kindOfFirst_numeric {c : Char} (h : c.isDigit = true ∨ c = '-') :
    kindOfFirst c = "number" := by
  unfold kindOfFirst
  have ne (d : Char) (hd : d.isDigit = false) (minus : d ≠ '-') : c ≠ d := by
    rintro rfl
    rcases h with h | h
    · simp [hd] at h
    · exact minus h
  simp [ne]

theorem toList_intercalate_cons (s : String) (rest : List String) :
    (String.intercalate "," (s :: rest)).toList =
      s.toList ++ rest.flatMap (fun t => ',' :: t.toList) := by
  induction rest generalizing s with
  | nil => simp
  | cons t rest ih =>
    rw [String.intercalate_cons_cons, String.toList_append, String.toList_append, ih,
      List.flatMap_cons]
    simp

variable {R : Type} [NumberText R]

theorem printItems_eq_map (items : List (Json R)) : printItems items = items.map print := by
  induction items with
  | nil => rfl
  | cons v rest ih => rw [printItems, ih, List.map_cons]

def furtherItems (items : List (Json R)) : List Char :=
  items.flatMap (fun v => ',' :: v.print.toList)

/-- What is written behind the opening bracket of an array. -/
def itemsText : List (Json R) → List Char
  | [] => [']']
  | v :: rest => v.print.toList ++ (furtherItems rest ++ [']'])

theorem toList_print_array (items : List (Json R)) :
    (print (.array items)).toList = '[' :: itemsText items := by
  cases items with
  | nil =>
    rw [print, printItems]
    rfl
  | cons v rest =>
    rw [print, printItems, String.toList_append, String.toList_append, toList_intercalate_cons,
      printItems_eq_map, List.flatMap_map]
    simp [itemsText, furtherItems]

def fieldText (f : String × Json R) : List Char :=
  (Text.escaped f.1).toList ++ ':' :: f.2.print.toList

def furtherFields (fields : List (String × Json R)) : List Char :=
  fields.flatMap (fun f => ',' :: fieldText f)

def fieldsText : List (String × Json R) → List Char
  | [] => ['\x7d']
  | f :: rest => fieldText f ++ (furtherFields rest ++ ['\x7d'])

theorem flatMap_printFields (fields : List (String × Json R)) :
    (printFields fields).flatMap (fun t => ',' :: t.toList) = furtherFields fields := by
  induction fields with
  | nil => rfl
  | cons f rest ih =>
    rcases f with ⟨name, v⟩
    rw [printFields, List.flatMap_cons, ih]
    simp [furtherFields, fieldText]

theorem toList_print_object (fields : List (String × Json R)) :
    (print (.object fields)).toList = '\x7b' :: fieldsText fields := by
  cases fields with
  | nil =>
    rw [print, printFields]
    rfl
  | cons f rest =>
    rcases f with ⟨name, v⟩
    rw [print, printFields, String.toList_append, String.toList_append, toList_intercalate_cons,
      flatMap_printFields]
    simp [fieldsText, fieldText]

/-- The first character that is written tells the kind of a document, and never closes an array. -/
theorem print_first (lawful : NumberText.Unambiguous R) (v : Json R) :
    ∃ c cs, v.print.toList = c :: cs ∧ kindOfFirst c = v.kind ∧ c ≠ ']' := by
  cases v with
  | null => exact ⟨'n', ['u', 'l', 'l'], by rw [print]; rfl, rfl, by decide⟩
  | bool b =>
    cases b with
    | false => exact ⟨'f', ['a', 'l', 's', 'e'], by rw [print]; rfl, rfl, by decide⟩
    | true => exact ⟨'t', ['r', 'u', 'e'], by rw [print]; rfl, rfl, by decide⟩
  | number n =>
    rcases (n.numeric_text lawful).first with ⟨c, cs, hn, first⟩
    refine ⟨c, cs, by rw [print, hn], kindOfFirst_numeric first, ?_⟩
    rintro rfl
    simp at first
  | text s => exact ⟨'"', _, by rw [print, toList_escaped]; rfl, rfl, by decide⟩
  | array items => exact ⟨'[', _, toList_print_array items, rfl, by decide⟩
  | object fields => exact ⟨'\x7b', _, toList_print_object fields, rfl, by decide⟩

theorem kind_eq_of_append (lawful : NumberText.Unambiguous R) {a b : Json R}
    {rest rest' : List Char} (h : a.print.toList ++ rest = b.print.toList ++ rest') :
    a.kind = b.kind := by
  rcases print_first lawful a with ⟨c, cs, ha, kind, -⟩
  rcases print_first lawful b with ⟨c', cs', hb, kind', -⟩
  rw [ha, hb, List.cons_append, List.cons_append, List.cons.injEq] at h
  rw [← kind, ← kind', h.1]

theorem ends_furtherItems (items : List (Json R)) (rest : List Char) :
    Ends (furtherItems items ++ ']' :: rest) := by
  cases items with
  | nil => exact ends_cons (.inr (.inl rfl)) rest
  | cons v items => exact ends_cons (.inl rfl) _

theorem ends_furtherFields (fields : List (String × Json R)) (rest : List Char) :
    Ends (furtherFields fields ++ '\x7d' :: rest) := by
  cases fields with
  | nil => exact ends_cons (.inr (.inr rfl)) rest
  | cons f fields => exact ends_cons (.inl rfl) _

theorem print_append_ne (lawful : NumberText.Unambiguous R) (v : Json R) (rest rest' : List Char) :
    v.print.toList ++ rest ≠ ']' :: rest' := by
  rcases print_first lawful v with ⟨c, cs, hv, -, opens⟩
  intro h
  rw [hv, List.cons_append, List.cons.injEq] at h
  exact opens h.1

theorem fieldText_append_ne (f : String × Json R) (rest rest' : List Char) :
    fieldText f ++ rest ≠ '\x7d' :: rest' := by
  unfold fieldText
  rw [toList_escaped]
  simp

/-- Can be told, together with what follows it, from what is written for it before that. -/
def Determined (a : Json R) : Prop :=
  ∀ b rest rest', Ends rest → Ends rest' →
    a.print.toList ++ rest = b.print.toList ++ rest' → a = b ∧ rest = rest'

theorem furtherItems_append_inj {items items' : List (Json R)}
    (determined : ∀ v ∈ items, Determined v) {rest rest' : List Char}
    (h : furtherItems items ++ ']' :: rest = furtherItems items' ++ ']' :: rest') :
    items = items' ∧ rest = rest' := by
  induction items generalizing items' with
  | nil =>
    cases items' with
    | nil => exact ⟨rfl, (List.cons.inj h).2⟩
    | cons w items' => simp [furtherItems] at h
  | cons v items ih =>
    cases items' with
    | nil => simp [furtherItems] at h
    | cons w items' =>
      rw [List.forall_mem_cons] at determined
      simp only [furtherItems, List.flatMap_cons, List.cons_append, List.append_assoc,
        List.cons.injEq, true_and] at h
      obtain ⟨first, further⟩ := determined.1 w _ _ (ends_furtherItems items rest)
        (ends_furtherItems items' rest') h
      rcases ih determined.2 further with ⟨same, behind⟩
      exact ⟨by rw [first, same], behind⟩

theorem fieldText_append_inj {f g : String × Json R} (determined : Determined f.2)
    {rest rest' : List Char} (hr : Ends rest) (hr' : Ends rest')
    (h : fieldText f ++ rest = fieldText g ++ rest') : f = g ∧ rest = rest' := by
  simp only [fieldText, List.append_assoc, List.cons_append] at h
  rcases escaped_append_inj h with ⟨name, behind⟩
  rw [List.cons.injEq] at behind
  rcases determined g.2 _ _ hr hr' behind.2 with ⟨value, behind⟩
  exact ⟨Prod.ext name value, behind⟩

theorem furtherFields_append_inj {fields fields' : List (String × Json R)}
    (determined : ∀ f ∈ fields, Determined f.2) {rest rest' : List Char}
    (h : furtherFields fields ++ '\x7d' :: rest = furtherFields fields' ++ '\x7d' :: rest') :
    fields = fields' ∧ rest = rest' := by
  induction fields generalizing fields' with
  | nil =>
    cases fields' with
    | nil => exact ⟨rfl, (List.cons.inj h).2⟩
    | cons g fields' => simp [furtherFields] at h
  | cons f fields ih =>
    cases fields' with
    | nil => simp [furtherFields] at h
    | cons g fields' =>
      rw [List.forall_mem_cons] at determined
      simp only [furtherFields, List.flatMap_cons, List.cons_append, List.append_assoc,
        List.cons.injEq, true_and] at h
      obtain ⟨first, further⟩ := fieldText_append_inj determined.1
        (ends_furtherFields fields rest) (ends_furtherFields fields' rest') h
      rcases ih determined.2 further with ⟨same, behind⟩
      exact ⟨by rw [first, same], behind⟩

theorem itemsText_append_inj (lawful : NumberText.Unambiguous R) {items items' : List (Json R)}
    (determined : ∀ v ∈ items, Determined v) {rest rest' : List Char}
    (h : itemsText items ++ rest = itemsText items' ++ rest') : items = items' ∧ rest = rest' := by
  cases items with
  | nil =>
    cases items' with
    | nil => exact ⟨rfl, List.append_cancel_left h⟩
    | cons w items' =>
      simp only [itemsText, List.append_assoc] at h
      exact absurd h.symm (print_append_ne lawful w _ _)
  | cons v items =>
    cases items' with
    | nil =>
      simp only [itemsText, List.append_assoc] at h
      exact absurd h (print_append_ne lawful v _ _)
    | cons w items' =>
      rw [List.forall_mem_cons] at determined
      simp only [itemsText, List.append_assoc, List.cons_append, List.nil_append] at h
      obtain ⟨first, further⟩ := determined.1 w _ _ (ends_furtherItems items rest)
        (ends_furtherItems items' rest') h
      rcases furtherItems_append_inj determined.2 further with ⟨same, behind⟩
      exact ⟨by rw [first, same], behind⟩

theorem fieldsText_append_inj {fields fields' : List (String × Json R)}
    (determined : ∀ f ∈ fields, Determined f.2) {rest rest' : List Char}
    (h : fieldsText fields ++ rest = fieldsText fields' ++ rest') :
    fields = fields' ∧ rest = rest' := by
  cases fields with
  | nil =>
    cases fields' with
    | nil => exact ⟨rfl, List.append_cancel_left h⟩
    | cons g fields' =>
      simp only [fieldsText, List.append_assoc] at h
      exact absurd h.symm (fieldText_append_ne g _ _)
  | cons f fields =>
    cases fields' with
    | nil =>
      simp only [fieldsText, List.append_assoc] at h
      exact absurd h (fieldText_append_ne f _ _)
    | cons g fields' =>
      rw [List.forall_mem_cons] at determined
      simp only [fieldsText, List.append_assoc, List.cons_append, List.nil_append] at h
      obtain ⟨first, further⟩ := fieldText_append_inj determined.1
        (ends_furtherFields fields rest) (ends_furtherFields fields' rest') h
      rcases furtherFields_append_inj determined.2 further with ⟨same, behind⟩
      exact ⟨by rw [first, same], behind⟩

section Kinds
variable (lawful : NumberText.Unambiguous R)
include lawful

theorem determined_null : Determined (.null : Json R) := by
  intro b rest rest' _ _ h
  have kinds := kind_eq_of_append lawful h
  cases b with
  | null => exact ⟨rfl, List.append_cancel_left h⟩
  | bool _ | number _ | text _ | array _ | object _ => simp [kind] at kinds

theorem determined_bool (x : Bool) : Determined (.bool x : Json R) := by
  intro b rest rest' _ _ h
  have kinds := kind_eq_of_append lawful h
  cases b with
  | bool y =>
    cases x with
    | false =>
      cases y with
      | false => exact ⟨rfl, List.append_cancel_left h⟩
      | true => simp [print] at h
    | true =>
      cases y with
      | false => simp [print] at h
      | true => exact ⟨rfl, List.append_cancel_left h⟩
  | null | number _ | text _ | array _ | object _ => simp [kind] at kinds

theorem determined_number (m : Number R) : Determined (.number m) := by
  intro b rest rest' hr hr' h
  have kinds := kind_eq_of_append lawful h
  cases b with
  | number n =>
    rw [print, print] at h
    -- A number has no closing mark: what follows it tells where it ends.
    obtain ⟨same, behind⟩ := append_inj_of_ends (m.numeric_text lawful).undelimited
      (n.numeric_text lawful).undelimited hr hr' h
    exact ⟨by rw [Number.text_injective lawful (String.toList_inj.1 same)], behind⟩
  | null | bool _ | text _ | array _ | object _ => simp [kind] at kinds

theorem determined_text (s : String) : Determined (.text s : Json R) := by
  intro b rest rest' _ _ h
  have kinds := kind_eq_of_append lawful h
  cases b with
  | text t =>
    rw [print, print] at h
    rcases escaped_append_inj h with ⟨same, behind⟩
    exact ⟨by rw [same], behind⟩
  | null | bool _ | number _ | array _ | object _ => simp [kind] at kinds

theorem determined_array {items : List (Json R)} (determined : ∀ v ∈ items, Determined v) :
    Determined (.array items) := by
  intro b rest rest' _ _ h
  have kinds := kind_eq_of_append lawful h
  cases b with
  | array items' =>
    rw [toList_print_array, toList_print_array, List.cons_append, List.cons_append,
      List.cons.injEq] at h
    rcases itemsText_append_inj lawful determined h.2 with ⟨same, behind⟩
    exact ⟨by rw [same], behind⟩
  | null | bool _ | number _ | text _ | object _ => simp [kind] at kinds

theorem determined_object {fields : List (String × Json R)}
    (determined : ∀ f ∈ fields, Determined f.2) : Determined (.object fields) := by
  intro b rest rest' _ _ h
  have kinds := kind_eq_of_append lawful h
  cases b with
  | object fields' =>
    rw [toList_print_object, toList_print_object, List.cons_append, List.cons_append,
      List.cons.injEq] at h
    rcases fieldsText_append_inj determined h.2 with ⟨same, behind⟩
    exact ⟨by rw [same], behind⟩
  | null | bool _ | number _ | text _ | array _ => simp [kind] at kinds

end Kinds

mutual

theorem determined (lawful : NumberText.Unambiguous R) (a : Json R) : Determined a := by
  cases a with
  | null => exact determined_null lawful
  | bool x => exact determined_bool lawful x
  | number m => exact determined_number lawful m
  | text s => exact determined_text lawful s
  | array items => exact determined_array lawful (determined_items lawful items)
  | object fields => exact determined_object lawful (determined_fields lawful fields)

theorem determined_items (lawful : NumberText.Unambiguous R) (items : List (Json R)) :
    ∀ v ∈ items, Determined v := by
  cases items with
  | nil => simp
  | cons v rest => exact List.forall_mem_cons.2 ⟨determined lawful v, determined_items lawful rest⟩

theorem determined_fields (lawful : NumberText.Unambiguous R) (fields : List (String × Json R)) :
    ∀ f ∈ fields, Determined f.2 := by
  cases fields with
  | nil => simp
  | cons f rest =>
    rcases f with ⟨name, v⟩
    exact List.forall_mem_cons.2 ⟨determined lawful v, determined_fields lawful rest⟩

end

theorem print_injective (lawful : NumberText.Unambiguous R) :
    Function.Injective (print (R := R)) := by
  intro a b h
  apply (determined lawful a b [] [] ends_nil ends_nil _).1
  rw [h]

end Json
end Credence
