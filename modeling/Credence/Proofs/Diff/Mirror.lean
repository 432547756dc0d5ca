import Credence.Proofs.Diff.Account
import Credence.Proofs.Graph.Bare
import Credence.Proofs.Scalar.Binary64

/-! # Differences read backwards

What is added on the way from one graph to another is removed on the way back, what is modified is
modified back, and what is unchanged stays so at the same places. The lists are equal up to the
order of their entries, since each way walks through the nodes of the graph that it starts from.
-/

namespace Credence
variable {R : Type}

def ModifiedEntry.reversed (e : ModifiedEntry R) : ModifiedEntry R :=
  ⟨e.nodeId, e.property, e.new, e.old⟩

theorem ModifiedEntry.reversed_involutive :
    Function.Involutive (reversed : ModifiedEntry R → ModifiedEntry R) := fun _ => rfl

def DiffEntry.place (e : DiffEntry R) : String × Option String := (e.nodeId, e.property)

namespace Graph
variable [Scalar R]

theorem nodup_of_sublist_changes {α : Type} {a b : Graph R} {entries : List α} {made : α → Change R}
    (part : (entries.map made).Sublist (a.diff b).changes) : entries.Nodup :=
  (((nodup_changes_places a b).of_map _).sublist part).of_map _

theorem nodup_added (a b : Graph R) : (a.diff b).added.Nodup :=
  nodup_of_sublist_changes (((List.sublist_append_left _ _).trans
    (List.sublist_append_left _ _)).trans (List.sublist_append_left _ _))

theorem nodup_removed (a b : Graph R) : (a.diff b).removed.Nodup :=
  nodup_of_sublist_changes (((List.sublist_append_right _ _).trans
    (List.sublist_append_left _ _)).trans (List.sublist_append_left _ _))

theorem nodup_modified (a b : Graph R) : (a.diff b).modified.Nodup :=
  nodup_of_sublist_changes ((List.sublist_append_right _ _).trans (List.sublist_append_left _ _))

/-- What one way adds the other way removes. -/
theorem mem_added_iff_mem_removed {a b : Graph R} {e : DiffEntry R} :
    e ∈ (b.diff a).added ↔ e ∈ (a.diff b).removed := by
  rw [mem_added_iff, mem_removed_iff]
  simp only [and_comm (a := _ = none)]

theorem added_perm_removed (a b : Graph R) : (b.diff a).added.Perm (a.diff b).removed :=
  (List.perm_ext_iff_of_nodup (nodup_added b a) (nodup_removed a b)).2
    fun _ => mem_added_iff_mem_removed

variable [PartialEquivBEq R]

theorem mem_modified_iff_reversed_mem {a b : Graph R} {e : ModifiedEntry R} :
    e ∈ (b.diff a).modified ↔ e.reversed ∈ (a.diff b).modified := by
  rw [mem_modified_iff, mem_modified_iff]
  constructor
  · rintro ⟨old, new, hold, hnew, hv, hw, differ⟩
    exact ⟨new, old, hnew, hold, hw, hv, (PropertyValue.agrees_comm _ _).trans differ⟩
  · rintro ⟨old, new, hold, hnew, hv, hw, differ⟩
    exact ⟨new, old, hnew, hold, hw, hv, (PropertyValue.agrees_comm _ _).trans differ⟩

theorem modified_perm_reversed (a b : Graph R) :
    (b.diff a).modified.Perm ((a.diff b).modified.map ModifiedEntry.reversed) := by
  have distinct := (nodup_modified a b).map ModifiedEntry.reversed_involutive.injective
  rw [List.perm_ext_iff_of_nodup (nodup_modified b a) distinct]
  intro e
  rw [List.mem_map_of_involutive ModifiedEntry.reversed_involutive, mem_modified_iff_reversed_mem]

/-- A place is unchanged on the way back where it is on the way there. -/
theorem mem_unchanged_places_of_reversed {a b : Graph R} {place : String × Option String}
    (h : place ∈ (a.diff b).unchanged.map DiffEntry.place) :
    place ∈ (b.diff a).unchanged.map DiffEntry.place := by
  rcases List.mem_map.1 h with ⟨e, he, rfl⟩
  rcases mem_unchanged_iff.1 he with ⟨old, new, p, v, hold, hnew, hp, hv, hw, same⟩
  rw [PropertyValue.agrees_comm] at same
  refine List.mem_map.2 ⟨⟨e.nodeId, some p, v⟩, ?_, Prod.ext rfl hp.symm⟩
  exact mem_unchanged_iff.2 ⟨new, old, p, e.value, hnew, hold, rfl, hw, hv, same⟩

theorem unchanged_places_perm (a b : Graph R) :
    ((b.diff a).unchanged.map DiffEntry.place).Perm ((a.diff b).unchanged.map DiffEntry.place) :=
  (List.perm_ext_iff_of_nodup (nodup_unchanged_places b a) (nodup_unchanged_places a b)).2
    fun _ => ⟨mem_unchanged_places_of_reversed, mem_unchanged_places_of_reversed⟩

/-- The difference of two graphs read backwards: added and removed entries change places, modified
entries have old and new exchanged, and the same places are unchanged. -/
theorem diff_reversed (a b : Graph R) :
    (b.diff a).added.Perm (a.diff b).removed ∧ (b.diff a).removed.Perm (a.diff b).added ∧
      (b.diff a).modified.Perm ((a.diff b).modified.map ModifiedEntry.reversed) ∧
      ((b.diff a).unchanged.map DiffEntry.place).Perm
        ((a.diff b).unchanged.map DiffEntry.place) :=
  ⟨added_perm_removed a b, (added_perm_removed b a).symm, modified_perm_reversed a b,
    unchanged_places_perm a b⟩

/-- One thing is retyped, keeps a number in another spelling, loses a statement and gains one; one
thing goes and another comes. -/
theorem diff_reversed_snapshots :
    (later.diff earlier).added.length = 2 ∧
      (later.diff earlier).added.Perm (earlier.diff later).removed ∧
      (later.diff earlier).removed.Perm (earlier.diff later).added ∧
      (later.diff earlier).modified.Perm
        [⟨"x", Keyword.type, .list [.ofText "A", .ofText "B"], .ofText "A"⟩] ∧
      ((later.diff earlier).unchanged.map DiffEntry.place).Perm [("x", some "p")] := by
  obtain ⟨added, removed, modified, unchanged⟩ := diff_reversed earlier later
  exact ⟨rfl, added, removed, modified, unchanged⟩

end Graph
end Credence
