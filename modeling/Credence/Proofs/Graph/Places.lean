import Credence.Proofs.Graph.Bare
import Credence.Proofs.Graph.Normalization
import Credence.Proofs.Scalar.Whole

/-! # Facts place by place

A place in a fact is the list of positions that lead to it, one for every list or node on the way
down. Facts are the same where the same stands at every place. Agreement is symmetric, and every
value agrees with itself that is read from finite numbers. It is transitive up to whole numbers:
these are told apart exactly, but a scalar that stands between two of them can be equal to both. In
double precision no whole numbers up to 2 to the power 53 are confused in this way.
-/

namespace Credence
variable {R : Type}

theorem forall₂_iff_getElem? {α β : Type} {related : α → β → Prop} {as : List α} {bs : List β} :
    List.Forall₂ related as bs ↔ ∀ i : Nat, Option.Rel related as[i]? bs[i]? := by
  induction as generalizing bs with
  | nil =>
    cases bs with
    | nil => simp
    | cons b bs => simpa using ⟨0, by simp⟩
  | cons a as ih =>
    cases bs with
    | nil => simpa using ⟨0, by simp⟩
    | cons b bs =>
      rw [List.forall₂_cons, ← Nat.and_forall_add_one, ih]
      simp

theorem forall₂_pair_iff {α β : Type} {related : β → β → Prop} {ps qs : List (α × β)} :
    List.Forall₂ (fun f g => f.1 = g.1 ∧ related f.2 g.2) ps qs ↔
      ps.map Prod.fst = qs.map Prod.fst ∧
        List.Forall₂ related (ps.map Prod.snd) (qs.map Prod.snd) := by
  induction ps generalizing qs with
  | nil => cases qs <;> simp
  | cons p ps ih => cases qs <;> simp [ih, and_assoc, and_left_comm]

section
variable [Scalar R]

/-- Different whole numbers that are equal as scalars. -/
def Confused (R : Type) [Scalar R] (m n : Int) : Prop := m ≠ n ∧ ((m : R) == (n : R)) = true

namespace Number

def whole? : Number R → Option Int
  | whole n => some n
  | scalar _ => none

variable {a b c : Number R}

theorem eq_of_sameValue (same : a.sameValue c = true) :
    ∀ m ∈ a.whole?, ∀ n ∈ c.whole?, m = n := by
  cases a <;> cases c <;> simp_all [whole?, sameValue]

theorem eq_or_beq_of_sameValue (same : a.sameValue b = true) :
    a = b ∨ (a.toScalar == b.toScalar) = true := by
  cases a <;> cases b <;> simp_all [sameValue]

/-- Numbers that are equal as scalars are the same, unless they are confused. -/
theorem sameValue_or_confused_of_beq (equal : (a.toScalar == c.toScalar) = true) :
    a.sameValue c = true ∨ ∃ m ∈ a.whole?, ∃ n ∈ c.whole?, Confused R m n := by
  cases a with
  | scalar x => exact .inl equal
  | whole m =>
    cases c with
    | scalar z => exact .inl equal
    | whole n =>
      by_cases same : m = n
      · exact .inl (beq_iff_eq.2 same)
      · exact .inr ⟨m, rfl, n, rfl, same, equal⟩

theorem sameValue_or_confused [PartialEquivBEq R] (hab : a.sameValue b = true)
    (hbc : b.sameValue c = true) :
    a.sameValue c = true ∨ ∃ m ∈ a.whole?, ∃ n ∈ c.whole?, Confused R m n := by
  rcases eq_or_beq_of_sameValue hab with rfl | left
  · exact .inl hbc
  rcases eq_or_beq_of_sameValue hbc with rfl | right
  · exact .inl hab
  exact sameValue_or_confused_of_beq (BEq.trans left right)

end Number

namespace Literal

def whole? : Literal R → Option Int
  | number n => n.whole?
  | boolean _ | text _ => none

variable {a b c : Literal R}

theorem eq_of_same (same : a.same c = true) : ∀ m ∈ a.whole?, ∀ n ∈ c.whole?, m = n := by
  cases a with
  | number x =>
    cases c with
    | number z => exact Number.eq_of_sameValue same
    | boolean z | text z => simp [whole?]
  | boolean x | text x => simp [whole?]

theorem same_or_confused [PartialEquivBEq R] (hab : a.same b = true) (hbc : b.same c = true) :
    a.same c = true ∨ ∃ m ∈ a.whole?, ∃ n ∈ c.whole?, Confused R m n := by
  cases b with
  | number y =>
    cases a with
    | number x =>
      cases c with
      | number z => exact Number.sameValue_or_confused hab hbc
      | boolean z | text z => cases hbc
    | boolean x | text x => cases hab
  | boolean y => cases a <;> cases c <;> simp_all [same]
  | text y => cases a <;> cases c <;> simp_all [same]

end Literal

/-- What stands at a place, but for what stands below it. -/
inductive Mark (R : Type) where
  | value (value : Literal R)
  | node (id : Option String) (types names : List String)
  | list

namespace Mark

def whole? : Mark R → Option Int
  | value l => l.whole?
  | node _ _ _ | list => none

/-- Literals that say the same, or nodes of one identifier, the same types and names, or lists. -/
inductive Same : Mark R → Mark R → Prop
  | value {l l' : Literal R} (same : l.same l' = true) : Same (.value l) (.value l')
  | node (id : Option String) (types names : List String) :
      Same (.node id types names) (.node id types names)
  | list : Same .list .list

theorem same_value_iff {l l' : Literal R} :
    (value l).Same (value l') ↔ l.same l' = true :=
  ⟨fun h => by cases h with | value same => exact same, .value⟩

theorem same_node_iff {id id' : Option String} {types types' names names' : List String} :
    (node id types names : Mark R).Same (node id' types' names') ↔
      id = id' ∧ types = types' ∧ names = names' := by
  constructor
  · intro h
    cases h
    exact ⟨rfl, rfl, rfl⟩
  · rintro ⟨rfl, rfl, rfl⟩
    exact .node _ _ _

variable {a b c : Mark R}

theorem eq_of_same (h : a.Same c) : ∀ m ∈ a.whole?, ∀ n ∈ c.whole?, m = n := by
  cases h with
  | value same => exact Literal.eq_of_same same
  | node id types names | list => simp [whole?]

theorem same_or_confused [PartialEquivBEq R] (hab : a.Same b) (hbc : b.Same c) :
    a.Same c ∨ ∃ m ∈ a.whole?, ∃ n ∈ c.whole?, Confused R m n := by
  cases hab with
  | value left =>
    cases hbc with
    | value right => exact (Literal.same_or_confused left right).imp_left .value
  | node id types names => exact .inl hbc
  | list => exact .inl hbc

end Mark

namespace Bare

/-- What a fact is made of in one step. -/
def parts : Bare R → List (Bare R)
  | value _ => []
  | node _ _ properties => properties.map Prod.snd
  | list items => items

def mark : Bare R → Mark R
  | value l => .value l
  | node id types properties => .node id types (properties.map Prod.fst)
  | list _ => .list

def markAt? : Bare R → List Nat → Option (Mark R)
  | a, [] => some a.mark
  | a, i :: place => a.parts[i]?.bind (fun part => part.markAt? place)

def wholeAt? (a : Bare R) (place : List Nat) : Option Int := (a.markAt? place).bind Mark.whole?

/-- What holds of a fact if it holds of its parts holds of every fact. -/
@[elab_as_elim]
theorem induction {R : Type} {P : Bare R → Prop}
    (step : ∀ a : Bare R, (∀ part ∈ a.parts, P part) → P a) (a : Bare R) : P a :=
  @Bare.rec R P (fun properties => ∀ part ∈ properties.map Prod.snd, P part)
    (fun items => ∀ part ∈ items, P part) (fun f => P f.2)
    (fun l => step (value l) (by simp [parts]))
    (fun id types properties => step (node id types properties))
    (fun items => step (list items))
    (by simp) (fun _ _ here behind => List.forall_mem_cons.2 ⟨here, behind⟩)
    (by simp) (fun _ _ here behind => List.forall_mem_cons.2 ⟨here, behind⟩)
    (fun _ _ here => here) a

theorem same_iff_parts {a b : Bare R} :
    a.same b = true ↔
      a.mark.Same b.mark ∧ List.Forall₂ (fun p q => p.same q = true) a.parts b.parts := by
  cases a with
  | value l =>
    cases b with
    | value l' => simp [same, mark, parts, Mark.same_value_iff]
    | node id' types' properties' | list items' =>
      exact iff_of_false (by simp [same]) (fun h => by cases h.1)
  | node id types properties =>
    cases b with
    | node id' types' properties' =>
      simp only [same, mark, parts, Mark.same_node_iff, Bool.and_eq_true, beq_iff_eq,
        sameFields_iff_forall₂, and_assoc]
      rw [← forall₂_pair_iff]
    | value l' | list items' => exact iff_of_false (by simp [same]) (fun h => by cases h.1)
  | list items =>
    cases b with
    | list items' => simp [same, mark, parts, Mark.Same.list, sameItems_iff_forall₂]
    | value l' | node id' types' properties' =>
      exact iff_of_false (by simp [same]) (fun h => by cases h.1)

theorem marks_of_same {a b : Bare R} (h : a.same b = true) (place : List Nat) :
    Option.Rel Mark.Same (a.markAt? place) (b.markAt? place) := by
  induction place generalizing a b with
  | nil => exact .some (same_iff_parts.1 h).1
  | cons i place ih =>
    have part := forall₂_iff_getElem?.1 (same_iff_parts.1 h).2 i
    simp only [markAt?]
    generalize a.parts[i]? = p?, b.parts[i]? = q? at part
    cases part with
    | none => exact .none
    | some same => exact ih same

theorem same_of_marks {a b : Bare R}
    (marks : ∀ place, Option.Rel Mark.Same (a.markAt? place) (b.markAt? place)) :
    a.same b = true := by
  induction a using Bare.induction generalizing b with
  | step a ih =>
    have here : a.mark.Same b.mark := by simpa [markAt?] using marks []
    refine same_iff_parts.2 ⟨here, forall₂_iff_getElem?.2 (fun i => ?_)⟩
    have below (place : List Nat) := marks (i :: place)
    simp only [markAt?] at below
    -- A part that only one of them has would show at its own place.
    cases hp : a.parts[i]? with
    | none =>
      cases hq : b.parts[i]? with
      | none => exact .none
      | some q => simpa [hp, hq, markAt?] using below []
    | some p =>
      cases hq : b.parts[i]? with
      | none => simpa [hp, hq, markAt?] using below []
      | some q =>
        simp only [hp, hq, Option.bind_some] at below
        exact .some (ih p (List.mem_of_getElem? hp) below)

/-- Facts are the same where the same stands at every place. -/
theorem same_iff_marks {a b : Bare R} :
    a.same b = true ↔ ∀ place, Option.Rel Mark.Same (a.markAt? place) (b.markAt? place) :=
  ⟨marks_of_same, same_of_marks⟩

variable {a b c : Bare R} {place : List Nat}

theorem eq_of_marks (here : Option.Rel Mark.Same (a.markAt? place) (c.markAt? place)) :
    ∀ m ∈ a.wholeAt? place, ∀ n ∈ c.wholeAt? place, m = n := by
  unfold wholeAt?
  generalize a.markAt? place = x, c.markAt? place = z at here
  cases here with
  | none => simp
  | some same => exact Mark.eq_of_same same

variable [PartialEquivBEq R]

theorem marks_or_confused (hab : a.same b = true) (hbc : b.same c = true) (place : List Nat) :
    Option.Rel Mark.Same (a.markAt? place) (c.markAt? place) ∨
      ∃ m ∈ a.wholeAt? place, ∃ n ∈ c.wholeAt? place, Confused R m n := by
  have left := marks_of_same hab place
  have right := marks_of_same hbc place
  unfold wholeAt?
  generalize a.markAt? place = x, b.markAt? place = y, c.markAt? place = z at left right
  cases left with
  | none =>
    cases right
    exact .inl .none
  | some left =>
    cases right with
    | some right => exact (Mark.same_or_confused left right).imp_left .some

theorem eq_or_confused (hab : a.same b = true) (hbc : b.same c = true) {m n : Int}
    (hm : m ∈ a.wholeAt? place) (hn : n ∈ c.wholeAt? place) : m = n ∨ Confused R m n := by
  rcases marks_or_confused hab hbc place with here | ⟨m', hm', n', hn', confused⟩
  · exact .inl (eq_of_marks here m hm n hn)
  · rw [Option.mem_unique hm hm', Option.mem_unique hn hn']
    exact .inr confused

/-- Facts that are the same as a third one are the same where no two different whole numbers stand
at one place of them. -/
theorem same_iff_of_same (hab : a.same b = true) (hbc : b.same c = true) :
    a.same c = true ↔
      ∀ place, ∀ m ∈ a.wholeAt? place, ∀ n ∈ c.wholeAt? place, m = n := by
  refine ⟨fun same place => eq_of_marks (marks_of_same same place), fun equal => ?_⟩
  refine same_iff_marks.2 (fun place => (marks_or_confused hab hbc place).resolve_right ?_)
  rintro ⟨m, hm, n, hn, apart, -⟩
  exact apart (equal place m hm n hn)

end Bare

/-- No number in a document is infinite or undefined, at any depth. -/
inductive Json.Finite : Json R → Prop
  | null : Finite .null
  | bool (b : Bool) : Finite (.bool b)
  | number {n : Number R} (finite : ∀ x, n = .scalar x → Scalar.isFinite x = true) :
      Finite (.number n)
  | text (s : String) : Finite (.text s)
  | array {items : List (Json R)} (parts : ∀ j ∈ items, Finite j) : Finite (.array items)
  | object {fields : Fields (Json R)} (parts : ∀ f ∈ fields, Finite f.2) : Finite (.object fields)

theorem Json.finite_whole (n : Int) : (Json.number (.whole n) : Json R).Finite :=
  .number (fun x same => by cases same)

end

/-- One of two whole numbers that are confused in double precision is above 2 to the power 53. -/
theorem Binary64.large_of_confused {m n : Int} (h : Confused Float m n) :
    2 ^ 53 < m.natAbs ∨ 2 ^ 53 < n.natAbs := by
  by_contra small
  rw [not_or, not_lt, not_lt] at small
  exact h.1 (eq_of_intCast_beq small.1 small.2 h.2)

theorem Literal.definite_of_finite {l : Literal Float} (finite : l.toJson.Finite) :
    l.Definite := by
  refine Binary64.definite_of_isFinite (fun x same => ?_)
  subst same
  cases finite with
  | number finite => exact finite x rfl

namespace PropertyValue

theorem definite_of_ofJson {document : Json Float} (finite : document.Finite)
    {v : PropertyValue Float} (read : ofJson document = .ok v) : v.Definite := by
  induction finite generalizing v with
  | null =>
    rw [ofJson] at read
    cases read
  | bool b | text s =>
    rw [ofJson] at read
    cases read
    exact .literal (fun x same => by cases same)
  | @number n finite =>
    rw [ofJson] at read
    cases read
    exact .literal (Literal.definite_of_finite (.number finite))
  | @array items _ ih =>
    rw [ofJson, ofItems_eq_mapM] at read
    obtain ⟨vs, made, same⟩ := bind_eq_ok_iff.1 read
    cases same
    refine .list (fun v hv => ?_)
    obtain ⟨item, hitem, read⟩ := exists_mem_of_forall₂ (mapM_eq_ok_iff.1 made).flip hv
    exact ih item hitem read
  | @object fields parts ih =>
    obtain ⟨-, a, made, rfl⟩ | ⟨-, n, made, rfl⟩ := ofJson_object_eq_ok_iff.1 read
    · obtain ⟨value, found, read⟩ :=
        Record.required_eq_ok_iff.1 (Assertion.readFields_eq_ok_iff.1 made).value
      have finite := parts _ (Fields.mem_of_get?_eq_some found)
      rw [Literal.eq_toJson_of_read read] at finite
      exact .annotated (Literal.definite_of_finite finite)
    · refine .node (fun p hp => ?_)
      obtain ⟨f, hf, -, read⟩ :=
        exists_mem_of_forall₂ (Node.reads_of_ofFields made).properties.flip hp
      exact ih f (List.mem_of_mem_filter hf) read

/-- Agreement is an equivalence of the values that documents spell, but for whole numbers. Values
that agree with a third one agree exactly where no two different whole numbers stand at one place of
them, as none do that are 2 to the power 53 or less. -/
theorem agrees_equivalence {document : Json Float} (finite : document.Finite)
    {x : PropertyValue Float} (read : ofJson document = .ok x) (y z : PropertyValue Float) :
    x.agrees x = true ∧ (x.agrees y = true → y.agrees x = true) ∧
      (x.agrees y = true → y.agrees z = true →
        (x.agrees z = true ↔ ∀ place, ∀ m ∈ x.bare.wholeAt? place,
          ∀ n ∈ z.bare.wholeAt? place, m = n) ∧
        ∀ place, ∀ m ∈ x.bare.wholeAt? place, ∀ n ∈ z.bare.wholeAt? place,
          m = n ∨ 2 ^ 53 < m.natAbs ∨ 2 ^ 53 < n.natAbs) := by
  refine ⟨agrees_self (definite_of_ofJson finite read), fun same => by rwa [agrees_comm],
    fun left right => ⟨Bare.same_iff_of_same left right, fun place m hm n hn => ?_⟩⟩
  exact (Bare.eq_or_confused left right hm hn).imp_right Binary64.large_of_confused

/-- A scalar between two whole numbers can agree with both. -/
theorem agrees_not_transitive :
    ¬ ∀ a b c : Json Float, a.Finite → b.Finite → c.Finite → ∀ x y z, ofJson a = .ok x →
      ofJson b = .ok y → ofJson c = .ok z → x.agrees y = true → y.agrees z = true →
      x.agrees z = true := by
  intro transitive
  have finite : (Json.number (.scalar 9007199254740992.0)).Finite := by
    refine .number (fun x same => ?_)
    rw [← Number.scalar.inj same]
    decide +kernel
  have same := transitive (.number (.whole 9007199254740993))
    (.number (.scalar 9007199254740992.0)) (.number (.whole 9007199254740992))
    (Json.finite_whole _) finite (Json.finite_whole _)
    (.literal (.number (.whole 9007199254740993)))
    (.literal (.number (.scalar 9007199254740992.0)))
    (.literal (.number (.whole 9007199254740992)))
    rfl rfl rfl (by decide +kernel) (by decide +kernel)
  exact absurd same (by decide +kernel)

def bornIn (year : PropertyValue Float) : PropertyValue Float :=
  .node ⟨some "ex:ada", ["Person"], none, [("born", year)]⟩

def bornInDocument (year : Json Float) : Json Float :=
  .object [(Keyword.id, .text "ex:ada"), (Keyword.type, .text "Person"), ("born", year)]

theorem eq_of_wholeAt?_bornIn {y m : Int} {place : List Nat}
    (h : m ∈ (bornIn (.literal (.number (.whole y)))).bare.wholeAt? place) : m = y := by
  have shape : (bornIn (.literal (.number (.whole y)))).bare =
      .node (some "ex:ada") (sortedNames ["Person"]) [("born", .value (.number (.whole y)))] := rfl
  rw [shape] at h
  rcases place with _ | ⟨_ | i, _ | ⟨j, place⟩⟩ <;>
    simp [Bare.wholeAt?, Bare.markAt?, Bare.parts, Bare.mark, Mark.whole?, Literal.whole?,
      Number.whole?] at h
  exact h.symm

theorem agrees_equivalence_births :
    (bornInDocument (.number (.whole 1815))).Finite ∧
      ofJson (bornInDocument (.number (.whole 1815))) =
        .ok (bornIn (.literal (.number (.whole 1815)))) ∧
      (bornIn (.literal (.number (.scalar 1815.0)))).agrees
        (bornIn (.literal (.number (.whole 1815)))) = true ∧
      (bornIn (.literal (.number (.whole 1815)))).agrees
        (bornIn (.annotated ⟨.number (.whole 1815), some 0.9, none, none, none, []⟩)) = true := by
  have finite : (bornInDocument (.number (.whole 1815))).Finite := by
    refine .object ?_
    simp only [List.forall_mem_cons]
    exact ⟨.text _, .text _, Json.finite_whole 1815, by simp⟩
  have read : ofJson (bornInDocument (.number (.whole 1815))) =
      .ok (bornIn (.literal (.number (.whole 1815)))) := rfl
  obtain ⟨-, back, further⟩ := agrees_equivalence finite read
    (bornIn (.literal (.number (.scalar 1815.0))))
    (bornIn (.annotated ⟨.number (.whole 1815), some 0.9, none, none, none, []⟩))
  refine ⟨finite, read, back (by decide +kernel),
    (further (by decide +kernel) (by decide +kernel)).1.2 (fun place m hm n hn => ?_)⟩
  exact (eq_of_wholeAt?_bornIn hm).trans (eq_of_wholeAt?_bornIn hn).symm

end PropertyValue

end Credence
