/-! # Values under names

An object, a node and a record all hold values under distinct names. They are kept as a list of
pairs in increasing name order, the order of code points, so equal contents are equal lists.
Every operation keeps the order, and reading back finds what was inserted last under a name.
-/

namespace Credence

/-- Values under names, listed in increasing name order. -/
abbrev Fields (V : Type) := List (String × V)

namespace Fields
variable {V : Type}

/-- Every name stands before the names that follow it, so no name stands twice. -/
def Ordered (fields : Fields V) : Prop := fields.Pairwise (fun a b => a.1 < b.1)

def get? : Fields V → String → Option V
  | [], _ => none
  | (k, v) :: rest, name => if name = k then some v else get? rest name

def has (fields : Fields V) (name : String) : Bool := (fields.get? name).isSome

def names (fields : Fields V) : List String := fields.map Prod.fst

/-- Puts a value under a name, in place of any earlier one. -/
def insert (fields : Fields V) (name : String) (value : V) : Fields V :=
  match fields with
  | [] => [(name, value)]
  | (k, v) :: rest =>
    if name < k then (name, value) :: (k, v) :: rest
    else if name = k then (name, value) :: rest
    else (k, v) :: insert rest name value

def erase (fields : Fields V) (name : String) : Fields V := fields.filter (fun f => f.1 != name)

/-- Puts every pair of a list over some fields; of two values under a name the later stays. -/
def overlay (base top : List (String × V)) : Fields V :=
  top.foldl (fun acc f => Fields.insert acc f.1 f.2) base

/-- The fields that a list of pairs spells in any order; of a repeated name the last one counts. -/
def ofList (pairs : List (String × V)) : Fields V := overlay [] pairs

def insert? (fields : Fields V) (name : String) : Option V → Fields V
  | some value => fields.insert name value
  | none => fields

@[simp] theorem get?_nil (name : String) : get? ([] : Fields V) name = none := rfl

theorem get?_cons (k : String) (v : V) (rest : Fields V) (name : String) :
    get? ((k, v) :: rest) name = if name = k then some v else get? rest name := rfl

theorem get?_insert_self (fields : Fields V) (name : String) (value : V) :
    (fields.insert name value).get? name = some value := by
  induction fields with
  | nil => simp [insert, get?_cons]
  | cons f rest ih =>
    obtain ⟨k, v⟩ := f
    unfold insert
    split
    · simp [get?_cons]
    · split
      · simp [get?_cons]
      · next h => simpa [get?_cons, h] using ih

theorem get?_insert_of_ne (fields : Fields V) {name other : String} (value : V)
    (h : other ≠ name) : (fields.insert name value).get? other = fields.get? other := by
  induction fields with
  | nil => simp [insert, get?_cons, h]
  | cons f rest ih =>
    obtain ⟨k, v⟩ := f
    unfold insert
    split
    · simp [get?_cons, h]
    · split
      · next hk => subst hk; simp [get?_cons, h]
      · by_cases hk : other = k
        · simp [get?_cons, hk]
        · simpa [get?_cons, hk] using ih

theorem ordered_nil : Ordered ([] : Fields V) := List.Pairwise.nil

theorem ordered_cons {f : String × V} {rest : Fields V} :
    Ordered (f :: rest) ↔ (∀ g ∈ rest, f.1 < g.1) ∧ Ordered rest := List.pairwise_cons

theorem mem_insert {fields : Fields V} {name : String} {value : V} {f : String × V}
    (h : f ∈ fields.insert name value) : f = (name, value) ∨ f ∈ fields := by
  induction fields with
  | nil => simpa [insert] using h
  | cons g rest ih =>
    obtain ⟨k, v⟩ := g
    unfold insert at h
    split at h
    · simpa using h
    · split at h
      · rcases List.mem_cons.1 h with h | h
        · exact .inl h
        · exact .inr (List.mem_cons_of_mem _ h)
      · rcases List.mem_cons.1 h with h | h
        · exact .inr (h ▸ List.mem_cons_self)
        · exact (ih h).imp_right (List.mem_cons_of_mem _)

theorem ordered_insert {fields : Fields V} (h : Ordered fields) (name : String) (value : V) :
    Ordered (fields.insert name value) := by
  induction fields with
  | nil => exact ordered_cons.2 ⟨by simp, ordered_nil⟩
  | cons g rest ih =>
    obtain ⟨k, v⟩ := g
    obtain ⟨above, ordered⟩ := ordered_cons.1 h
    unfold insert
    split
    · next below =>
      refine ordered_cons.2 ⟨fun g hg => ?_, h⟩
      rcases List.mem_cons.1 hg with rfl | hg
      · exact below
      · exact String.lt_trans below (above g hg)
    · split
      · next same => subst same; exact ordered_cons.2 ⟨above, ordered⟩
      · next notBelow other =>
        refine ordered_cons.2 ⟨fun g hg => ?_, ih ordered⟩
        rcases mem_insert hg with rfl | hg
        · exact Std.lt_of_le_of_ne (String.not_lt.1 notBelow) (Ne.symm other)
        · exact above g hg

theorem ordered_overlay {base : Fields V} (h : Ordered base) (top : List (String × V)) :
    Ordered (overlay base top) := by
  induction top generalizing base with
  | nil => exact h
  | cons f rest ih => exact ih (ordered_insert h f.1 f.2)

theorem ordered_ofList (pairs : List (String × V)) : Ordered (ofList pairs) :=
  ordered_overlay ordered_nil pairs

theorem ordered_erase {fields : Fields V} (h : Ordered fields) (name : String) :
    Ordered (fields.erase name) := List.Pairwise.filter _ h

end Fields

/-- The names of a list, sorted and each listed once. -/
def sortedNames (words : List String) : List String := (Fields.ofList (words.map (·, ()))).names

theorem sortedNames_increasing (words : List String) :
    (sortedNames words).Pairwise (fun a b => a < b) :=
  List.pairwise_map.2 (Fields.ordered_ofList _)

end Credence
