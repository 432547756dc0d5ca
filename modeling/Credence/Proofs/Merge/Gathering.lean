import Credence.Merge.Buckets
import Credence.Proofs.Fields

/-! # What one pass puts where

The buckets hold every identifier once, in the order in which the identifiers first appear, each
with all of its nodes in order; the nodes without an identifier are set aside in order. One step
of the pass keeps this for one more node, so it holds after any pass.
-/

namespace Credence.Merge
variable {R : Type}

def membersOf (nodes : List (Node R)) (id : String) : List (Node R) :=
  nodes.filter (fun n => n.id == some id)

/-- The position of the first node with an identifier, or the end of the list. -/
def firstPlace (nodes : List (Node R)) (id : String) : Nat :=
  nodes.findIdx (fun n => n.id == some id)

theorem mem_membersOf {nodes : List (Node R)} {id : String} {n : Node R} :
    n ∈ membersOf nodes id ↔ n ∈ nodes ∧ n.id = some id := by
  simp [membersOf]

theorem membersOf_append (nodes more : List (Node R)) (id : String) :
    membersOf (nodes ++ more) id = membersOf nodes id ++ membersOf more id :=
  List.filter_append nodes more

theorem membersOf_ne_nil_iff {nodes : List (Node R)} {id : String} :
    membersOf nodes id ≠ [] ↔ some id ∈ nodes.map Node.id := by
  simp [membersOf, List.filter_eq_nil_iff]

theorem firstPlace_lt_length_iff {nodes : List (Node R)} {id : String} :
    firstPlace nodes id < nodes.length ↔ some id ∈ nodes.map Node.id := by
  simp [firstPlace, List.findIdx_lt_length]

theorem firstPlace_append_of_mem {nodes : List (Node R)} {id : String} (more : List (Node R))
    (h : some id ∈ nodes.map Node.id) : firstPlace (nodes ++ more) id = firstPlace nodes id := by
  have found : firstPlace nodes id < nodes.length := firstPlace_lt_length_iff.2 h
  unfold firstPlace at found ⊢
  rw [List.findIdx_append, if_pos found]

theorem length_le_firstPlace_append {nodes : List (Node R)} {id : String} (more : List (Node R))
    (h : some id ∉ nodes.map Node.id) : nodes.length ≤ firstPlace (nodes ++ more) id := by
  have absent : ¬ firstPlace nodes id < nodes.length := fun found =>
    h (firstPlace_lt_length_iff.1 found)
  unfold firstPlace at absent ⊢
  rw [List.findIdx_append, if_neg absent]
  exact Nat.le_add_left _ _

section Buckets

theorem map_id_addToBuckets (id : String) (n : Node R) (bs : List (Bucket R)) :
    (addToBuckets id n bs).map Bucket.id =
      if id ∈ bs.map Bucket.id then bs.map Bucket.id else bs.map Bucket.id ++ [id] := by
  induction bs with
  | nil => simp [addToBuckets]
  | cons b rest ih =>
    unfold addToBuckets
    by_cases h : b.id = id
    · simp [h]
    · have behind : id ∈ (b :: rest).map Bucket.id ↔ id ∈ rest.map Bucket.id := by
        rw [List.map_cons, List.mem_cons, or_iff_right (fun e => h e.symm)]
      rw [if_neg h, List.map_cons, ih]
      simp only [behind]
      split <;> rfl

/-- A bucket after a step is one of another identifier that was there before, or the one of the
node's identifier with the node behind its earlier members. -/
theorem mem_addToBuckets {id : String} {n : Node R} {bs : List (Bucket R)}
    (distinct : (bs.map Bucket.id).Nodup) {b : Bucket R} (h : b ∈ addToBuckets id n bs) :
    (b ∈ bs ∧ b.id ≠ id) ∨ (∃ c ∈ bs, c.id = id ∧ b = ⟨id, c.members ++ [n]⟩) ∨
      (id ∉ bs.map Bucket.id ∧ b = ⟨id, [n]⟩) := by
  induction bs with
  | nil =>
    right; right
    exact ⟨by simp, by simpa [addToBuckets] using h⟩
  | cons c rest ih =>
    rw [List.map_cons, List.nodup_cons] at distinct
    unfold addToBuckets at h
    by_cases hc : c.id = id
    · rw [if_pos hc] at h
      rcases List.mem_cons.1 h with rfl | behind
      · right; left
        exact ⟨c, List.mem_cons_self, hc, by simp [hc]⟩
      · left
        refine ⟨List.mem_cons_of_mem _ behind, fun hb => distinct.1 ?_⟩
        rw [hc, ← hb]
        exact List.mem_map_of_mem behind
    · rw [if_neg hc] at h
      rcases List.mem_cons.1 h with rfl | behind
      · exact .inl ⟨List.mem_cons_self, hc⟩
      · rcases ih distinct.2 behind with ⟨hb, other⟩ | ⟨d, hd, same, rfl⟩ | ⟨absent, rfl⟩
        · exact .inl ⟨List.mem_cons_of_mem _ hb, other⟩
        · exact .inr (.inl ⟨d, List.mem_cons_of_mem _ hd, same, rfl⟩)
        · refine .inr (.inr ⟨?_, rfl⟩)
          rw [List.map_cons, List.mem_cons, not_or]
          exact ⟨fun e => hc e.symm, absent⟩

end Buckets

/-- The identifiers of some nodes, each once, in the order in which they first appear. -/
structure ListsIds (nodes : List (Node R)) (ids : List String) : Prop where
  mem_iff : ∀ id, id ∈ ids ↔ some id ∈ nodes.map Node.id
  ordered : ids.Pairwise (fun a b => firstPlace nodes a < firstPlace nodes b)

namespace ListsIds
variable {nodes : List (Node R)} {ids : List String}

theorem nodup (h : ListsIds nodes ids) : ids.Nodup := by
  apply h.ordered.imp
  intro a b hab
  rintro rfl
  exact Nat.lt_irrefl _ hab

theorem unique {ids' : List String} (h : ListsIds nodes ids) (h' : ListsIds nodes ids') :
    ids = ids' := by
  apply eq_of_pairwise_of_mem_iff Nat.lt_asymm h.ordered h'.ordered
  intro id
  rw [h.mem_iff, h'.mem_iff]

theorem ordered_append (h : ListsIds nodes ids) (more : List (Node R)) :
    ids.Pairwise (fun a b => firstPlace (nodes ++ more) a < firstPlace (nodes ++ more) b) := by
  apply h.ordered.imp_of_mem
  intro a b ha hb hab
  rwa [firstPlace_append_of_mem more ((h.mem_iff a).1 ha),
    firstPlace_append_of_mem more ((h.mem_iff b).1 hb)]

theorem append_anonymous (h : ListsIds nodes ids) {n : Node R} (hn : n.id = none) :
    ListsIds (nodes ++ [n]) ids :=
  ⟨fun id => by simp [h.mem_iff id, hn], h.ordered_append [n]⟩

theorem append_known (h : ListsIds nodes ids) {n : Node R} {id : String} (hn : n.id = some id)
    (known : id ∈ ids) : ListsIds (nodes ++ [n]) ids := by
  refine ⟨fun other => ?_, h.ordered_append [n]⟩
  have known' := (h.mem_iff id).1 known
  rw [h.mem_iff, List.map_append, List.mem_append]
  simp only [List.map_cons, List.map_nil, List.mem_singleton, hn, Option.some.injEq]
  constructor
  · exact .inl
  · rintro (earlier | rfl)
    · exact earlier
    · exact known'

theorem append_fresh (h : ListsIds nodes ids) {n : Node R} {id : String} (hn : n.id = some id)
    (fresh : id ∉ ids) : ListsIds (nodes ++ [n]) (ids ++ [id]) := by
  have fresh' : some id ∉ nodes.map Node.id := fun hm => fresh ((h.mem_iff id).2 hm)
  refine ⟨fun other => ?_, List.pairwise_append.2
    ⟨h.ordered_append [n], List.pairwise_singleton _ _, fun a ha b hb => ?_⟩⟩
  · rw [List.mem_append, h.mem_iff, List.map_append, List.mem_append]
    simp [hn]
  · rw [List.mem_singleton.1 hb]
    have known := (h.mem_iff a).1 ha
    rw [firstPlace_append_of_mem [n] known]
    exact Nat.lt_of_lt_of_le (firstPlace_lt_length_iff.2 known)
      (length_le_firstPlace_append [n] fresh')

end ListsIds

/-- What holds after a pass over some nodes. -/
structure Gathered.Covers (g : Gathered R) (nodes : List (Node R)) : Prop where
  ids : ListsIds nodes (g.buckets.map Bucket.id)
  members_eq : ∀ b ∈ g.buckets, b.members = membersOf nodes b.id
  anonymous_eq : g.anonymous = nodes.filter Node.isAnonymous

theorem covers_nil : (⟨[], []⟩ : Gathered R).Covers [] :=
  ⟨⟨by simp, by simp⟩, by simp, rfl⟩

theorem Gathered.Covers.add_anonymous {g : Gathered R} {nodes : List (Node R)}
    (h : g.Covers nodes) {n : Node R} (hn : n.id = none) :
    (g.add n).Covers (nodes ++ [n]) := by
  have step : g.add n = ⟨g.buckets, g.anonymous ++ [n]⟩ := by simp [Gathered.add, hn]
  rw [step]
  constructor
  case ids => exact h.ids.append_anonymous hn
  case members_eq =>
    intro b hb
    rw [h.members_eq b hb, membersOf_append]
    simp [membersOf, hn]
  case anonymous_eq => simp [h.anonymous_eq, Node.isAnonymous, hn]

/-- A node with an identifier goes into the bucket of that identifier and nowhere else. -/
theorem Gathered.Covers.add_identified {g : Gathered R} {nodes : List (Node R)}
    (h : g.Covers nodes) {n : Node R} {id : String} (hn : n.id = some id) :
    (g.add n).Covers (nodes ++ [n]) := by
  have step : g.add n = ⟨addToBuckets id n g.buckets, g.anonymous⟩ := by simp [Gathered.add, hn]
  have own : membersOf [n] id = [n] := by simp [membersOf, hn]
  rw [step]
  constructor
  case ids =>
    rw [map_id_addToBuckets]
    split
    · next known => exact h.ids.append_known hn known
    · next fresh => exact h.ids.append_fresh hn fresh
  case members_eq =>
    intro b hb
    rw [membersOf_append]
    rcases mem_addToBuckets h.ids.nodup hb with ⟨hb, other⟩ | ⟨c, hc, same, rfl⟩ | ⟨absent, rfl⟩
    · have none : membersOf [n] b.id = [] := by simp [membersOf, hn, Ne.symm other]
      rw [none, List.append_nil, h.members_eq b hb]
    · change c.members ++ [n] = membersOf nodes id ++ membersOf [n] id
      rw [own, h.members_eq c hc, same]
    · change [n] = membersOf nodes id ++ membersOf [n] id
      have empty : membersOf nodes id = [] := by
        by_contra some
        exact absent ((h.ids.mem_iff id).2 (membersOf_ne_nil_iff.1 some))
      rw [own, empty, List.nil_append]
  case anonymous_eq => simp [h.anonymous_eq, Node.isAnonymous, hn]

theorem Gathered.Covers.add {g : Gathered R} {nodes : List (Node R)} (h : g.Covers nodes)
    (n : Node R) : (g.add n).Covers (nodes ++ [n]) := by
  cases hn : n.id with
  | none => exact h.add_anonymous hn
  | some id => exact h.add_identified hn

theorem Gathered.Covers.foldl {g : Gathered R} {nodes : List (Node R)} (h : g.Covers nodes)
    (more : List (Node R)) : (more.foldl Gathered.add g).Covers (nodes ++ more) := by
  induction more generalizing g nodes with
  | nil => simpa using h
  | cons n rest ih => simpa using ih (h.add n)

theorem gather_covers (nodes : List (Node R)) : (gather nodes).Covers nodes := by
  simpa [gather] using covers_nil.foldl nodes

end Credence.Merge
