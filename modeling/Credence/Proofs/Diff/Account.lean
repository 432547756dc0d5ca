import Mathlib.Data.List.Perm.Basic
import Credence.Proofs.Diff.Entries
import Credence.Proofs.Graph.ReadBack
import Credence.Proofs.Graph.Sameness
import Credence.Scalar.Binary64

/-! # A difference as an account

The entries of a difference about one identifier are all that happened to its nodes. A node of one
graph has one entry. Of a node of both there is one entry for every name under which either states
something; the current values of these entries are what the second graph states, the former ones
what the first does.
-/

namespace Credence
variable {R : Type}

namespace Change

def nodeId : Change R → String
  | .added e | .removed e | .unchanged e => e.nodeId
  | .modified e => e.nodeId

/-- The property that an entry is about; nothing where it is a whole node. -/
def property? : Change R → Option String
  | .added e | .removed e | .unchanged e => e.property
  | .modified e => some e.property

/-- What the second graph states by an entry about a property. -/
def current? : Change R → Option (String × PropertyValue R)
  | .added e | .unchanged e => e.property.map (·, e.value)
  | .removed _ => none
  | .modified e => some (e.property, e.new)

def isFormer (c : Change R) : Bool := c.added?.isNone

/-- What the first graph states by an entry about a property. Of an unchanged value the account has
the newer form only. -/
inductive Former [Scalar R] : Change R → String × PropertyValue R → Prop
  | removed (id p : String) (v : PropertyValue R) : Former (.removed ⟨id, some p, v⟩) (p, v)
  | modified (id p : String) (v w : PropertyValue R) : Former (.modified ⟨id, p, v, w⟩) (p, v)
  | unchanged (id p : String) {v w : PropertyValue R} (same : v.agrees w = true) :
      Former (.unchanged ⟨id, some p, w⟩) (p, v)

end Change

namespace GraphDiff

def changes (d : GraphDiff R) : List (Change R) :=
  d.added.map .added ++ d.removed.map .removed ++ d.modified.map .modified ++
    d.unchanged.map .unchanged

def about (d : GraphDiff R) (id : String) : List (Change R) :=
  d.changes.filter (fun c => c.nodeId == id)

theorem changes_ofChanges_perm (cs : List (Change R)) : (ofChanges cs).changes.Perm cs := by
  induction cs with
  | nil => rfl
  | cons c cs ih =>
    refine .trans ?_ (ih.cons c)
    unfold changes ofChanges
    cases c with
    | added e => rfl
    | removed e => exact (List.perm_middle.append_right _).append_right _
    | modified e => exact List.perm_middle.append_right _
    | unchanged e => exact List.perm_middle

end GraphDiff

theorem nodup_eraseDups (words : List String) : words.eraseDups.Nodup := by
  induction h : words.length using Nat.strong_induction_on generalizing words with
  | _ length ih =>
    cases words with
    | nil => exact List.nodup_nil
    | cons word rest =>
      have shorter : (rest.filter (fun other => !other == word)).length < length :=
        h ▸ Nat.lt_succ_of_le (List.length_filter_le _ _)
      rw [List.eraseDups_cons, List.nodup_cons, List.mem_eraseDups]
      exact ⟨by simp, ih _ shorter _ rfl⟩

/-- Of entries that are listed key by key, those with one key are the ones listed for it. -/
theorem filter_flatMap_of_nodup {α : Type} {key : α → String} {listed : String → List α}
    (keyed : ∀ k, ∀ x ∈ listed k, key x = k) {keys : List String} (nodup : keys.Nodup)
    (k : String) :
    (keys.flatMap listed).filter (fun x => key x == k) = if k ∈ keys then listed k else [] := by
  induction keys with
  | nil => rfl
  | cons k' keys ih =>
    rcases List.nodup_cons.1 nodup with ⟨fresh, nodup⟩
    rw [List.flatMap_cons, List.filter_append, ih nodup]
    by_cases here : k = k'
    · subst here
      have all : (listed k).filter (fun x => key x == k) = listed k :=
        List.filter_eq_self.2 (fun x hx => by simpa using keyed k x hx)
      rw [all, if_neg fresh, if_pos List.mem_cons_self, List.append_nil]
    · have none : (listed k').filter (fun x => key x == k) = [] := by
        refine List.filter_eq_nil_iff.2 (fun x hx same => here ?_)
        rw [← keyed k' x hx, beq_iff_eq.1 same]
      simp [none, here]

namespace Fields
variable {V : Type}

/-- Ordered fields are found again by going through names in order, all of theirs among them. -/
theorem filterMap_get? {fields : Fields V} (ordered : Ordered fields) {names : List String}
    (increasing : names.Pairwise (· < ·)) (listed : ∀ p ∈ fields.names, p ∈ names) :
    names.filterMap (fun p => (fields.get? p).map (p, ·)) = fields := by
  apply eq_of_pairwise_of_mem_iff String.lt_asymm ?_ ordered
  · rintro ⟨p, v⟩
    rw [List.mem_filterMap, mem_iff_get?_eq_some ordered]
    constructor
    · rintro ⟨p', -, found⟩
      rcases Option.map_eq_some_iff.1 found with ⟨v', hv, same⟩
      cases same
      exact hv
    · intro hv
      exact ⟨p, listed p (isSome_get?_iff.1 (Option.isSome_of_eq_some hv)), by rw [hv]; rfl⟩
  · rw [List.pairwise_filterMap]
    refine increasing.imp (fun {p q} below f hf g hg => ?_)
    rcases Option.map_eq_some_iff.1 hf with ⟨v, -, rfl⟩
    rcases Option.map_eq_some_iff.1 hg with ⟨w, -, rfl⟩
    exact below

theorem insert_perm {fields : Fields V} {name : String} (absent : name ∉ fields.names) (v : V) :
    (fields.insert name v).Perm ((name, v) :: fields) := by
  induction fields with
  | nil => rfl
  | cons f rest ih =>
    rcases f with ⟨k, w⟩
    rw [names, List.map_cons, List.mem_cons, not_or] at absent
    unfold insert
    split
    · rfl
    · rw [if_neg absent.1]
      exact ((ih absent.2).cons _).trans (.swap _ _ _)

theorem erase_of_notMem {fields : Fields V} {name : String} (absent : name ∉ fields.names) :
    fields.erase name = fields := by
  refine List.filter_eq_self.2 (fun f hf => ?_)
  rw [bne_iff_ne]
  rintro rfl
  exact absent (List.mem_map_of_mem hf)

end Fields

namespace Node

/-- What a node states: its properties, and its sorted types under their reserved name. -/
def statements (n : Node R) : List (String × PropertyValue R) :=
  n.properties ++ (n.typesValue?.map (Keyword.type, ·)).toList

namespace NamesApart
variable {n : Node R}

theorem ordered_facts (h : n.NamesApart) : Fields.Ordered n.facts := by
  unfold facts
  cases n.typesValue? with
  | none => exact Fields.ordered_erase h.ordered _
  | some types => exact Fields.ordered_insert h.ordered _ _

theorem facts_perm (h : n.NamesApart) : n.facts.Perm n.statements := by
  unfold facts statements
  cases n.typesValue? with
  | none => rw [Fields.erase_of_notMem h.typeless, Option.map_none, Option.toList_none,
      List.append_nil]
  | some types =>
    exact (Fields.insert_perm h.typeless types).trans (List.perm_append_singleton _ _).symm

theorem mem_names_facts (h : n.NamesApart) {p : String} :
    p ∈ n.facts.names ↔ p ∈ n.propertyNames ∨ p = Keyword.type ∧ n.types ≠ [] := by
  rw [← Fields.isSome_get?_iff]
  by_cases isType : p = Keyword.type
  · subst isType
    rw [get?_facts_type, ne_eq, ← typesValue?_eq_none_iff, Option.isSome_iff_ne_none]
    simp [h.typeless]
  · rw [get?_facts_of_ne n isType, get?, Fields.isSome_get?_iff]
    simp [isType, propertyNames]

end NamesApart
end Node

namespace Diff

theorem nodeId_of_mem_fromNew {a : Graph R} {id : String} {new : Node R} {c : Change R}
    (h : c ∈ fromNew a id new) : c.nodeId = id := by
  rw [eq_added_of_mem_fromNew h]
  rfl

theorem filter_overNodes {g : Graph R} {entries : String → Node R → List (Change R)}
    (about : ∀ id n, ∀ c ∈ entries id n, c.nodeId = id) (id : String) :
    (overNodes g entries).filter (fun c => c.nodeId == id) =
      ((g.node? id).map (entries id)).getD [] := by
  have keyed (id : String) : ∀ c ∈ ((g.node? id).map (entries id)).getD [], c.nodeId = id := by
    cases g.node? id with
    | none => simp
    | some n => exact about id n
  have nodup : (distinctIds g.nodes).Nodup := nodup_eraseDups _
  rw [overNodes, filter_flatMap_of_nodup keyed nodup]
  split
  · rfl
  · next absent =>
    cases found : g.node? id with
    | none => rfl
    | some n => exact absurd (Graph.mem_distinctIds_iff.2 ⟨n, found⟩) absent

def namesOf (old new : Node R) : List String := sortedNames (old.facts.names ++ new.facts.names)

theorem mem_namesOf {old new : Node R} {p : String} :
    p ∈ namesOf old new ↔ p ∈ old.facts.names ∨ p ∈ new.facts.names := by
  rw [namesOf, mem_sortedNames, List.mem_append]

theorem increasing_namesOf (old new : Node R) : (namesOf old new).Pairwise (· < ·) :=
  sortedNames_increasing _

theorem nodup_namesOf (old new : Node R) : (namesOf old new).Nodup := by
  refine (increasing_namesOf old new).imp (fun {p q} below => ?_)
  rintro rfl
  exact String.lt_irrefl p below

variable [Scalar R]

theorem nodeId_of_changeOf? {id p : String} {v w : Option (PropertyValue R)} {c : Change R}
    (h : changeOf? id p v w = some c) : c.nodeId = id := by
  cases c with
  | added e =>
    rcases changeOf?_eq_added_iff.1 h with ⟨w, -, -, rfl⟩
    rfl
  | removed e =>
    rcases changeOf?_eq_removed_iff.1 h with ⟨v, -, -, rfl⟩
    rfl
  | modified e =>
    rcases changeOf?_eq_modified_iff.1 h with ⟨v, w, -, -, -, rfl⟩
    rfl
  | unchanged e =>
    rcases changeOf?_eq_unchanged_iff.1 h with ⟨v, w, -, -, -, rfl⟩
    rfl

theorem nodeId_of_mem_fromOld {b : Graph R} {id : String} {old : Node R} {c : Change R}
    (h : c ∈ fromOld b id old) : c.nodeId = id := by
  unfold fromOld at h
  split at h
  · rcases mem_nodeChanges_iff.1 h with ⟨p, changed⟩
    exact nodeId_of_changeOf? changed
  · rw [List.mem_singleton.1 h]
    rfl

theorem nodeChanges_eq (id : String) (old new : Node R) : nodeChanges id old new =
    (namesOf old new).filterMap (fun p =>
      changeOf? id p (old.facts.get? p) (new.facts.get? p)) := rfl

theorem map_property?_nodeChanges (id : String) (old new : Node R) :
    (nodeChanges id old new).map Change.property? = (namesOf old new).map some := by
  rw [nodeChanges_eq, List.map_filterMap, ← List.filterMap_eq_map]
  apply List.filterMap_congr
  intro p hp
  rw [mem_namesOf, ← Fields.isSome_get?_iff, ← Fields.isSome_get?_iff] at hp
  cases hv : old.facts.get? p with
  | none =>
    cases hw : new.facts.get? p with
    | none => simp [hv, hw] at hp
    | some w => rfl
  | some v =>
    cases hw : new.facts.get? p with
    | none => rfl
    | some w =>
      rw [changeOf?_both]
      split <;> rfl

/-- The current values of the entries are what the newer node states. -/
theorem filterMap_current?_nodeChanges (id : String) (old : Node R) {new : Node R}
    (ordered : Fields.Ordered new.facts) :
    (nodeChanges id old new).filterMap Change.current? = new.facts := by
  rw [nodeChanges_eq, List.filterMap_filterMap]
  refine .trans (List.filterMap_congr fun p _ => ?_) (Fields.filterMap_get? ordered
    (increasing_namesOf old new) (fun p hp => mem_namesOf.2 (.inr hp)))
  cases old.facts.get? p with
  | none => cases new.facts.get? p <;> rfl
  | some v =>
    cases new.facts.get? p with
    | none => rfl
    | some w =>
      rw [changeOf?_both]
      split <;> rfl

/-- The former values of the entries are what the older node states. -/
theorem former_nodeChanges (id : String) {old : Node R} (new : Node R)
    (ordered : Fields.Ordered old.facts) :
    List.Forall₂ Change.Former ((nodeChanges id old new).filter Change.isFormer) old.facts := by
  have entry (p : String) : Option.Rel Change.Former
      ((changeOf? id p (old.facts.get? p) (new.facts.get? p)).filter Change.isFormer)
      ((old.facts.get? p).map (p, ·)) := by
    cases old.facts.get? p with
    | none => cases new.facts.get? p <;> exact .none
    | some v =>
      cases new.facts.get? p with
      | none => exact .some (.removed id p v)
      | some w =>
        rw [changeOf?_both]
        split
        · next same => exact .some (.unchanged id p same)
        · exact .some (.modified id p v w)
  have entries : List.Forall₂ Change.Former ((nodeChanges id old new).filter Change.isFormer)
      ((namesOf old new).filterMap (fun p => (old.facts.get? p).map (p, ·))) := by
    rw [nodeChanges_eq, List.filter_filterMap]
    refine List.rel_filterMap (R := Eq) ?_ (List.forall₂_same.2 fun _ _ => rfl)
    rintro p - rfl
    exact entry p
  rwa [Fields.filterMap_get? ordered (increasing_namesOf old new)
    (fun p hp => mem_namesOf.2 (.inl hp))] at entries

/-- Entries that account for what became of a node: one for every name under which either node
states something, with what the newer one states as their current values and what the older one
states as their former values. -/
structure Accounts (old new : Node R) (entries : List (Change R)) : Prop where
  once : (entries.map Change.property?).Nodup
  places : ∀ place, place ∈ entries.map Change.property? ↔
    ∃ p, place = some p ∧ (p ∈ old.propertyNames ∨ p ∈ new.propertyNames ∨
      p = Keyword.type ∧ (old.types ≠ [] ∨ new.types ≠ []))
  current : (entries.filterMap Change.current?).Perm new.statements
  former : ∃ values, List.Forall₂ Change.Former (entries.filter Change.isFormer) values ∧
    values.Perm old.statements

theorem accounts_nodeChanges (id : String) {old new : Node R} (hold : old.NamesApart)
    (hnew : new.NamesApart) : Accounts old new (nodeChanges id old new) := by
  have names := map_property?_nodeChanges id old new
  constructor
  case once =>
    rw [names]
    exact (nodup_namesOf old new).map (Option.some_injective _)
  case places =>
    intro place
    rw [names, List.mem_map]
    simp only [mem_namesOf, hold.mem_names_facts, hnew.mem_names_facts]
    constructor
    · rintro ⟨p, stated, rfl⟩
      exact ⟨p, rfl, by tauto⟩
    · rintro ⟨p, rfl, stated⟩
      exact ⟨p, by tauto, rfl⟩
  case current =>
    rw [filterMap_current?_nodeChanges id old hnew.ordered_facts]
    exact hnew.facts_perm
  case former => exact ⟨old.facts, former_nodeChanges id new hold.ordered_facts, hold.facts_perm⟩

theorem Accounts.of_perm {old new : Node R} {entries entries' : List (Change R)}
    (h : Accounts old new entries) (perm : entries'.Perm entries) :
    Accounts old new entries' := by
  constructor
  case once => exact (perm.map _).nodup_iff.2 h.once
  case places => exact fun place => (perm.map _).mem_iff.trans (h.places place)
  case current => exact (perm.filterMap _).trans h.current
  case former =>
    rcases h.former with ⟨values, formers, same⟩
    rcases List.perm_comp_forall₂ (perm.filter _) formers with ⟨values', formers', same'⟩
    exact ⟨values', formers', same'.trans same⟩

end Diff

namespace Graph
variable [Scalar R] {a b : Graph R}

/-- The entries about an identifier are those of its node in the first graph and of its node in the
second. -/
theorem about_diff_perm (a b : Graph R) (id : String) : ((a.diff b).about id).Perm
    (((a.node? id).map (Diff.fromOld b id)).getD [] ++
      ((b.node? id).map (Diff.fromNew a id)).getD []) := by
  have all : ((a.diff b).about id).Perm
      ((Diff.overNodes a (Diff.fromOld b) ++ Diff.overNodes b (Diff.fromNew a)).filter
        (fun c => c.nodeId == id)) := (GraphDiff.changes_ofChanges_perm _).filter _
  rwa [List.filter_append, Diff.filter_overNodes (fun _ _ _ => Diff.nodeId_of_mem_fromOld),
    Diff.filter_overNodes (fun _ _ _ => Diff.nodeId_of_mem_fromNew)] at all

theorem about_diff_of_both {id : String} {old new : Node R} (hold : a.node? id = some old)
    (hnew : b.node? id = some new) :
    ((a.diff b).about id).Perm (Diff.nodeChanges id old new) := by
  simpa [hold, hnew, Diff.fromOld, Diff.fromNew] using about_diff_perm a b id

theorem nodup_changes_places (a b : Graph R) :
    ((a.diff b).changes.map (fun c => (c.nodeId, c.property?))).Nodup := by
  have within (id : String) : (((a.diff b).about id).map Change.property?).Nodup := by
    have all := about_diff_perm a b id
    cases hold : a.node? id with
    | none =>
      cases hnew : b.node? id with
      | none => simp_all
      | some new => simp_all [Diff.fromNew]
    | some old =>
      cases hnew : b.node? id with
      | none => simp_all [Diff.fromOld]
      | some new =>
        rw [((about_diff_of_both hold hnew).map _).nodup_iff, Diff.map_property?_nodeChanges]
        exact (Diff.nodup_namesOf old new).map (Option.some_injective _)
  refine List.pairwise_map.2 (List.pairwise_iff_forall_sublist.2 fun {c c'} both same => ?_)
  obtain ⟨sameNode, sameProperty⟩ := Prod.mk.inj same
  have about : [c, c'].Sublist ((a.diff b).about c.nodeId) := by
    simpa [GraphDiff.about, sameNode] using both.filter (fun d => d.nodeId == c.nodeId)
  have distinct := (within c.nodeId).sublist (about.map Change.property?)
  simp [sameProperty] at distinct

theorem nodup_unchanged_places (a b : Graph R) :
    ((a.diff b).unchanged.map (fun e => (e.nodeId, e.property))).Nodup := by
  have part : ((a.diff b).unchanged.map Change.unchanged).Sublist (a.diff b).changes :=
    List.sublist_append_right _ _
  have places := (nodup_changes_places a b).sublist (part.map _)
  rwa [List.map_map] at places

theorem WellFormed.namesApart {g : Graph R} (h : g.WellFormed) : g.NamesApart := by
  intro n hn
  have formed := Node.holds_of_throughout (h.nodes n hn)
  refine ⟨formed.ordered, fun typed => ?_⟩
  rcases List.mem_map.1 typed with ⟨f, hf, same⟩
  exact formed.named f hf (same ▸ .inr (.inl rfl))

/-- A difference is an exact account. About an identifier of neither graph it has no entry. A node
whose identifier is in one graph only has a single entry, as a whole. Of a node in both graphs the
entries are an account. -/
theorem diff_accounts (ha : a.Decoded) (hb : b.Decoded) (id : String) :
    (a.node? id = none → b.node? id = none → (a.diff b).about id = []) ∧
      (∀ old, a.node? id = some old → b.node? id = none →
        (a.diff b).about id = [.removed ⟨id, none, .node old⟩]) ∧
      (∀ new, a.node? id = none → b.node? id = some new →
        (a.diff b).about id = [.added ⟨id, none, .node new⟩]) ∧
      ∀ old new, a.node? id = some old → b.node? id = some new →
        Diff.Accounts old new ((a.diff b).about id) := by
  have all := about_diff_perm a b id
  refine ⟨fun hold hnew => ?_, fun old hold hnew => ?_, fun new hold hnew => ?_,
    fun old new hold hnew => ?_⟩
  · simpa [hold, hnew] using all
  · simpa [hold, hnew, Diff.fromOld] using all
  · simpa [hold, hnew, Diff.fromNew] using all
  · have apart := ha.wellFormed.namesApart old (List.mem_of_find?_eq_some hold)
    have apart' := hb.wellFormed.namesApart new (List.mem_of_find?_eq_some hnew)
    exact (Diff.accounts_nodeChanges id apart apart').of_perm (about_diff_of_both hold hnew)

def member (id : String) (types : List String) (properties : List (String × Json Float)) :
    Json Float :=
  .ofFields ((Keyword.id, .text id) :: (Keyword.type, .texts types) :: properties)

def snapshot (members : List (Json Float)) : Json Float :=
  .ofFields [(Keyword.members, .array members)]

theorem ordered_member {id : String} {types : List String}
    {properties : List (String × Json Float)} (h : ∀ f ∈ properties, f.2.Ordered) :
    (member id types properties).Ordered :=
  Json.ordered_ofFields (List.forall_mem_cons.2 ⟨.text id, List.forall_mem_cons.2
    ⟨.array (List.forall_mem_map.2 (fun t _ => .text t)), h⟩⟩)

theorem decoded_of_snapshot {members : List (Json Float)} (h : ∀ j ∈ members, j.Ordered)
    {g : Graph Float} (made : ofJson (snapshot members) = .ok g) : g.Decoded :=
  ⟨_, Json.ordered_ofFields (List.forall_mem_singleton.2 (.array h)), rfl, made⟩

def earlier : Graph Float :=
  .ofNodes [⟨some "x", ["A"], none, [("p", .literal (.number (.whole 1))), ("q", .ofText "a")]⟩,
    ⟨some "x", ["C"], none, []⟩, ⟨some "y", [], none, []⟩]

def later : Graph Float :=
  .ofNodes [⟨some "x", ["B", "A"], none, [("p", .literal (.number (.scalar 1.0))),
    ("r", .literal (.boolean true))]⟩, ⟨some "z", [], none, []⟩]

theorem decoded_earlier : earlier.Decoded := by
  have told : ofJson (snapshot [member "x" ["A"] [("p", .number (.whole 1)), ("q", .text "a")],
      member "x" ["C"] [], member "y" [] []]) = .ok earlier := rfl
  refine decoded_of_snapshot ?_ told
  simp only [List.forall_mem_cons]
  refine ⟨ordered_member ?_, ordered_member (by simp), ordered_member (by simp), by simp⟩
  exact List.forall_mem_cons.2 ⟨.number _, List.forall_mem_singleton.2 (.text _)⟩

theorem decoded_later : later.Decoded := by
  have told : ofJson (snapshot [member "x" ["B", "A"] [("p", .number (.scalar 1.0)),
      ("r", .bool true)], member "z" [] []]) = .ok later := rfl
  refine decoded_of_snapshot ?_ told
  simp only [List.forall_mem_cons]
  refine ⟨ordered_member ?_, ordered_member (by simp), by simp⟩
  exact List.forall_mem_cons.2 ⟨.number _, List.forall_mem_singleton.2 (.bool _)⟩

theorem diff_accounts_snapshots :
    (∃ old new, earlier.node? "x" = some old ∧ later.node? "x" = some new ∧
        Diff.Accounts old new ((earlier.diff later).about "x")) ∧
      (earlier.diff later).about "y" = [.removed ⟨"y", none, .node ⟨some "y", [], none, []⟩⟩] ∧
      (earlier.diff later).about "z" = [.added ⟨"z", none, .node ⟨some "z", [], none, []⟩⟩] ∧
      (earlier.diff later).about "w" = [] := by
  have account (id : String) := diff_accounts decoded_earlier decoded_later id
  refine ⟨⟨_, _, rfl, rfl, ?_⟩, ?_, ?_, ?_⟩
  · exact (account "x").2.2.2 _ _ rfl rfl
  · exact (account "y").2.1 _ rfl rfl
  · exact (account "z").2.2.1 _ rfl rfl
  · exact (account "w").1 rfl rfl

end Graph
end Credence
