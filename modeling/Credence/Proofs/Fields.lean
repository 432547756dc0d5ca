import Mathlib.Data.List.Sort
import Credence.Fields

/-! # What ordered fields hold

Fields in name order are determined by what is found under each name, and a sorted list of names
by the names in it.
-/

namespace Credence

theorem eq_of_pairwise_of_mem_iff {α : Type} {before : α → α → Prop}
    (asymm : ∀ {a b}, before a b → ¬ before b a) {xs ys : List α} (hx : xs.Pairwise before)
    (hy : ys.Pairwise before) (h : ∀ a, a ∈ xs ↔ a ∈ ys) : xs = ys := by
  have irrefl : Std.Irrefl before := ⟨fun a ha => asymm ha ha⟩
  have antisymm : Std.Antisymm before := ⟨fun a b hab hba => absurd hba (asymm hab)⟩
  exact List.Pairwise.eq_of_mem_iff hx hy h

namespace Fields
variable {V : Type}

theorem isSome_get?_iff {fields : Fields V} {name : String} :
    (fields.get? name).isSome ↔ name ∈ fields.names := by
  induction fields with
  | nil => simp [names]
  | cons f rest ih =>
    rcases f with ⟨k, v⟩
    rw [get?_cons]
    by_cases h : name = k
    · simp [h, names]
    · simpa [h, names] using ih

theorem get?_eq_none_iff {fields : Fields V} {name : String} :
    fields.get? name = none ↔ name ∉ fields.names := by
  rw [← isSome_get?_iff, Option.not_isSome_iff_eq_none]

theorem mem_of_get?_eq_some {fields : Fields V} {name : String} {v : V}
    (h : fields.get? name = some v) : (name, v) ∈ fields := by
  induction fields with
  | nil => simp at h
  | cons f rest ih =>
    rcases f with ⟨k, w⟩
    rw [get?_cons] at h
    split at h
    · next hk =>
      obtain rfl : w = v := Option.some.inj h
      exact hk ▸ List.mem_cons_self
    · exact List.mem_cons_of_mem _ (ih h)

theorem mem_names_insert {fields : Fields V} {name other : String} {v : V} :
    other ∈ (fields.insert name v).names ↔ other = name ∨ other ∈ fields.names := by
  rw [← isSome_get?_iff, ← isSome_get?_iff]
  by_cases h : other = name
  · subst h
    simp [get?_insert_self]
  · simp [get?_insert_of_ne fields v h, h]

theorem mem_names_overlay {base : Fields V} {top : List (String × V)} {name : String} :
    name ∈ (overlay base top).names ↔ name ∈ top.map Prod.fst ∨ name ∈ base.names := by
  induction top generalizing base with
  | nil => simp [overlay]
  | cons f rest ih =>
    change name ∈ (overlay (base.insert f.1 f.2) rest).names ↔ _
    rw [ih, mem_names_insert, List.map_cons, List.mem_cons]
    tauto

theorem get?_insert {fields : Fields V} {name other : String} {v : V} :
    (fields.insert name v).get? other = if other = name then some v else fields.get? other := by
  by_cases h : other = name
  · rw [if_pos h, h, get?_insert_self]
  · rw [if_neg h, get?_insert_of_ne fields v h]

theorem get?_overlay_of_notMem {base : Fields V} {top : List (String × V)} {name : String}
    (h : name ∉ top.map Prod.fst) : (overlay base top).get? name = base.get? name := by
  induction top generalizing base with
  | nil => rfl
  | cons f rest ih =>
    rw [List.map_cons, List.mem_cons, not_or] at h
    change (overlay (base.insert f.1 f.2) rest).get? name = _
    rw [ih h.2, get?_insert_of_ne base f.2 h.1]

theorem get?_overlay_of_mem {base : Fields V} {top : List (String × V)}
    (distinct : (top.map Prod.fst).Nodup) {name : String} {v : V} (h : (name, v) ∈ top) :
    (overlay base top).get? name = some v := by
  induction top generalizing base with
  | nil => cases h
  | cons f rest ih =>
    obtain ⟨fresh, distinct⟩ := List.nodup_cons.1 distinct
    rcases List.mem_cons.1 h with here | behind
    · cases here
      change (overlay (base.insert name v) rest).get? name = some v
      rw [get?_overlay_of_notMem fresh, get?_insert_self]
    · exact ih distinct behind

theorem get?_ofList_of_mem {pairs : List (String × V)} (distinct : (pairs.map Prod.fst).Nodup)
    {name : String} {v : V} (h : (name, v) ∈ pairs) : (ofList pairs).get? name = some v :=
  get?_overlay_of_mem distinct h

theorem get?_ofList_of_notMem {pairs : List (String × V)} {name : String}
    (h : name ∉ pairs.map Prod.fst) : (ofList pairs).get? name = none :=
  get?_overlay_of_notMem h

/-- What is found under a name after an overlay depends on the base by that name only. -/
theorem get?_overlay_congr {base base' : Fields V} {top : List (String × V)} {name : String}
    (h : base.get? name = base'.get? name) :
    (overlay base top).get? name = (overlay base' top).get? name := by
  induction top generalizing base base' with
  | nil => exact h
  | cons f rest ih =>
    apply ih
    rw [get?_insert, get?_insert, h]

theorem get?_eq_some_of_mem {fields : Fields V} (ordered : Ordered fields) {name : String} {v : V}
    (h : (name, v) ∈ fields) : fields.get? name = some v := by
  induction fields with
  | nil => simp at h
  | cons f rest ih =>
    rcases f with ⟨k, w⟩
    rcases ordered_cons.1 ordered with ⟨above, ordered⟩
    rw [get?_cons]
    rcases List.mem_cons.1 h with here | behind
    · cases here
      rw [if_pos rfl]
    · have below : k < name := above (name, v) behind
      have distinct : name ≠ k := by
        rintro rfl
        exact String.lt_irrefl name below
      rw [if_neg distinct, ih ordered behind]

theorem mem_iff_get?_eq_some {fields : Fields V} (ordered : Ordered fields) {f : String × V} :
    f ∈ fields ↔ fields.get? f.1 = some f.2 :=
  ⟨get?_eq_some_of_mem ordered, mem_of_get?_eq_some⟩

theorem eq_of_get?_eq {a b : Fields V} (ha : Ordered a) (hb : Ordered b)
    (h : ∀ name, a.get? name = b.get? name) : a = b := by
  apply eq_of_pairwise_of_mem_iff String.lt_asymm ha hb
  intro f
  rw [mem_iff_get?_eq_some ha, mem_iff_get?_eq_some hb, h]

theorem get?_eq_none_of_lt {fields : Fields V} {name : String} (h : ∀ f ∈ fields, name < f.1) :
    fields.get? name = none := by
  rw [get?_eq_none_iff]
  intro behind
  rcases List.mem_map.1 behind with ⟨f, hf, rfl⟩
  exact String.lt_irrefl f.1 (h f hf)

/-- After an overlay the top is found first, and the base under the names that it does not have. -/
theorem get?_overlay {base : Fields V} {top : Fields V} (ordered : Ordered top) (name : String) :
    (overlay base top).get? name = (top.get? name <|> base.get? name) := by
  induction top generalizing base with
  | nil => rfl
  | cons f rest ih =>
    rcases f with ⟨k, v⟩
    rcases ordered_cons.1 ordered with ⟨above, ordered⟩
    change (overlay (base.insert k v) rest).get? name = _
    rw [ih ordered, get?_insert, get?_cons]
    by_cases here : name = k
    · have absent : Fields.get? rest name = none := get?_eq_none_of_lt (here ▸ above)
      rw [absent, if_pos here, if_pos here]
      rfl
    · rw [if_neg here, if_neg here]

theorem get?_ofList {fields : Fields V} (ordered : Ordered fields) (name : String) :
    (ofList fields).get? name = fields.get? name := by
  rw [ofList, get?_overlay ordered]
  simp

theorem get?_filter (fields : Fields V) (keep : String → Bool) (name : String) :
    Fields.get? (fields.filter (fun f => keep f.1)) name =
      if keep name then fields.get? name else none := by
  induction fields with
  | nil => simp
  | cons f rest ih =>
    rcases f with ⟨k, v⟩
    by_cases kept : keep k = true
    · rw [List.filter_cons_of_pos (by simpa using kept), get?_cons, get?_cons, ih]
      by_cases here : name = k
      · simp [here, kept]
      · simp [here]
    · rw [List.filter_cons_of_neg (by simpa using kept), ih, get?_cons]
      by_cases here : name = k
      · simp [here, kept]
      · simp [here]

theorem get?_erase {fields : Fields V} {name other : String} :
    (fields.erase name).get? other = if other = name then none else fields.get? other := by
  induction fields with
  | nil => simp [erase]
  | cons f rest ih =>
    rcases f with ⟨k, v⟩
    by_cases dropped : k = name
    · subst dropped
      have step : erase ((k, v) :: rest) k = erase rest k := List.filter_cons_of_neg (by simp)
      rw [step, ih, get?_cons]
      split <;> rfl
    · have step : erase ((k, v) :: rest) name = (k, v) :: erase rest name :=
        List.filter_cons_of_pos (by simpa using dropped)
      rw [step, get?_cons, get?_cons, ih]
      by_cases here : other = k
      · subst here
        simp [dropped]
      · simp [here]

theorem ordered_of_map_fst_eq {W : Type} {a : Fields V} {b : Fields W} (h : Ordered a)
    (same : b.map Prod.fst = a.map Prod.fst) : Ordered b := by
  have names : (a.map Prod.fst).Pairwise (· < ·) := List.pairwise_map.2 h
  rw [← same] at names
  exact List.pairwise_map.1 names

theorem get?_insert? {fields : Fields V} {name other : String} {v : Option V} :
    (fields.insert? name v).get? other =
      if other = name then v <|> fields.get? other else fields.get? other := by
  cases v with
  | none => simp [insert?]
  | some v => exact get?_insert

/-- What is found in one list and then in another is so after the same is put over both. -/
theorem get?_insert?_over {fields front behind : Fields V}
    (h : ∀ other, fields.get? other = (front.get? other <|> behind.get? other)) (name : String)
    (v : Option V) (other : String) :
    (fields.insert? name v).get? other =
      ((front.insert? name v).get? other <|> behind.get? other) := by
  rw [get?_insert?, get?_insert?]
  split
  · rw [h]
    cases v <;> rfl
  · exact h other

theorem ordered_insert? {fields : Fields V} (h : Ordered fields) (name : String) (v : Option V) :
    Ordered (fields.insert? name v) := by
  cases v with
  | none => exact h
  | some v => exact ordered_insert h name v

end Fields

theorem mem_sortedNames {words : List String} {word : String} :
    word ∈ sortedNames words ↔ word ∈ words := by
  unfold sortedNames Fields.ofList
  rw [Fields.mem_names_overlay]
  simp [Fields.names]

theorem sortedNames_congr {words words' : List String} (h : ∀ word, word ∈ words ↔ word ∈ words') :
    sortedNames words = sortedNames words' := by
  apply eq_of_pairwise_of_mem_iff String.lt_asymm (sortedNames_increasing words)
    (sortedNames_increasing words')
  intro word
  rw [mem_sortedNames, mem_sortedNames, h]

end Credence
