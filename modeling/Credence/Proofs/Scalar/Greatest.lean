import Mathlib.Data.Prod.Lex
import Mathlib.Order.Defs.Unbundled
import Credence.Proofs.Scalar.Leader

/-! # The first of the greatest

Where challenges go by a total order of some elements, the leader of these is the first of the
greatest among them. The order need not be one of all elements: scores are ordered, though numbers
that are no scores may not be.
-/

namespace Credence
variable {α β : Type}

/-- The greatest among some elements by an order, and of several such the one with the least
place. -/
structure FirstGreatest (le : α → α → Prop) (place : α → ℕ) (among : α → Prop) (x : α) : Prop where
  mem : among x
  greatest : ∀ y, among y → le y x
  first : ∀ y, among y → (∀ z, among z → le z y) → place x ≤ place y

theorem FirstGreatest.place_unique {le : α → α → Prop} {place : α → ℕ} {among : α → Prop} {x y : α}
    (hx : FirstGreatest le place among x) (hy : FirstGreatest le place among y) :
    place x = place y :=
  Nat.le_antisymm (hx.first y hy.mem hy.greatest) (hy.first x hx.mem hx.greatest)

/-- A total order of the elements of one kind. A challenge among these succeeds where the challenger
is not below. -/
structure Ranks (kind : α → Prop) (le : α → α → Prop) (beats : α → α → Bool) : Prop where
  trans : ∀ {a b c}, kind a → kind b → kind c → le a b → le b c → le a c
  total : ∀ {a b}, kind a → kind b → le a b ∨ le b a
  beats_iff : ∀ {a b}, kind a → kind b → (beats a b = true ↔ ¬ le a b)

theorem leader_map (beats : β → β → Bool) (f : α → β) (first : α) (rest : List α) :
    leader beats (f first) (rest.map f) = f (leader (fun a b => beats (f a) (f b)) first rest) := by
  induction rest generalizing first with
  | nil => rfl
  | cons next rest ih =>
    rw [List.map_cons, leader_cons, leader_cons]
    split
    · exact ih next
    · exact ih first

namespace Ranks
variable {kind : α → Prop} {le : α → α → Prop} {beats : α → α → Bool}

theorem comap (h : Ranks kind le beats) (f : β → α) :
    Ranks (fun b => kind (f b)) (fun a b => le (f a) (f b)) (fun a b => beats (f a) (f b)) where
  trans := h.trans
  total := h.total
  beats_iff := h.beats_iff

theorem beats_eq_false_iff (h : Ranks kind le beats) {a b : α} (ha : kind a) (hb : kind b) :
    beats a b = false ↔ le a b := by
  rw [Bool.eq_false_iff, ne_eq, h.beats_iff ha hb, not_not]

theorem strictWeak (h : Ranks kind le beats) :
    StrictWeak (fun a b : {x // kind x} => beats a b) where
  asymm {a b} hab := by
    rw [h.beats_eq_false_iff b.2 a.2]
    exact (h.total a.2 b.2).resolve_left ((h.beats_iff a.2 b.2).1 hab)
  weak {a b c} hab hbc := by
    rw [h.beats_eq_false_iff a.2 b.2] at hab
    rw [h.beats_eq_false_iff b.2 c.2] at hbc
    exact (h.beats_eq_false_iff a.2 c.2).2 (h.trans a.2 b.2 c.2 hab hbc)

theorem leader_split (h : Ranks kind le beats) {first : α} {rest : List α}
    (kinds : ∀ x ∈ first :: rest, kind x) :
    ∃ before after, first :: rest = before ++ leader beats first rest :: after ∧
      (∀ x ∈ before, ¬ le (leader beats first rest) x) ∧
      ∀ x ∈ after, le x (leader beats first rest) := by
  obtain ⟨one, others⟩ := List.forall_mem_cons.1 kinds
  -- The order is one of the elements of the kind only, so the leader is found among these.
  obtain ⟨before, after, split, ahead, behind⟩ :=
    h.strictWeak.leader_split ⟨first, one⟩ (rest.attachWith kind others)
  have same := leader_map beats Subtype.val ⟨first, one⟩ (rest.attachWith kind others)
  rw [List.attachWith_map_subtype_val] at same
  have split := congrArg (List.map Subtype.val) split
  rw [List.map_cons, List.attachWith_map_subtype_val, List.map_append, List.map_cons,
    ← same] at split
  refine ⟨before.map Subtype.val, after.map Subtype.val, split, ?_, ?_⟩
  · refine List.forall_mem_map.2 (fun x hx => ?_)
    rw [same]
    exact (h.beats_iff (Subtype.prop _) x.2).1 (ahead x hx)
  · refine List.forall_mem_map.2 (fun x hx => ?_)
    rw [same]
    exact (h.beats_eq_false_iff x.2 (Subtype.prop _)).1 (behind x hx)

/-- The leader of elements that stand in the order of their places is the first of the greatest. -/
theorem firstGreatest_leader (h : Ranks kind le beats) {place : α → ℕ} {first : α} {rest : List α}
    (kinds : ∀ x ∈ first :: rest, kind x)
    (ordered : (first :: rest).Pairwise (fun x y => place x < place y)) :
    FirstGreatest le place (· ∈ first :: rest) (leader beats first rest) := by
  have member : leader beats first rest ∈ first :: rest := leader_mem beats first rest
  have reflexive {x : α} (hx : kind x) : le x x := (h.total hx hx).elim id id
  obtain ⟨before, after, split, ahead, behind⟩ := h.leader_split kinds
  have cases_of {x : α} (hx : x ∈ first :: rest) :
      x ∈ before ∨ x = leader beats first rest ∨ x ∈ after := by
    rwa [split, List.mem_append, List.mem_cons] at hx
  refine ⟨member, fun x hx => ?_, fun x hx most => ?_⟩
  · rcases cases_of hx with early | rfl | late
    · exact (h.total (kinds x hx) (kinds _ member)).resolve_right (ahead x early)
    · exact reflexive (kinds _ member)
    · exact behind x late
  · rcases cases_of hx with early | same | late
    · exact absurd (most _ member) (ahead x early)
    · rw [same]
    · rw [split] at ordered
      exact (List.rel_of_pairwise_cons (List.pairwise_append.1 ordered).2.1 late).le

end Ranks

section Pairs
variable {earlier : β → β → Bool} [IsStrictTotalOrder β (fun s t => earlier s t = true)]

theorem earlier_trans {s t u : β} (before : earlier s t = true) (before' : earlier t u = true) :
    earlier s u = true :=
  IsTrans.trans (r := fun s t => earlier s t = true) s t u before before'

theorem earlier_irrefl (s : β) : ¬ earlier s s = true :=
  irrefl (r := fun s t => earlier s t = true) s

variable (earlier) in
theorem earlier_cases (s t : β) : earlier s t = true ∨ s = t ∨ earlier t s = true :=
  trichotomous (r := fun s t => earlier s t = true) s t

variable (earlier) in
/-- Pairs are ranked by their first parts, and those with one first part by their second. -/
theorem Ranks.lex [DecidableEq β] {kind : α → Prop} {le : α → α → Prop} {beats : α → α → Bool}
    (h : Ranks kind le beats) :
    Ranks (fun x : β × α => kind x.2) (Prod.Lex (fun s t => earlier s t = true) le)
      (fun x y => earlier y.1 x.1 || (y.1 == x.1 && beats x.2 y.2)) where
  trans {x y z} hx hy hz hxy hyz := by
    rw [Prod.lex_def] at hxy hyz ⊢
    rcases hxy with before | ⟨same, below⟩
    · rcases hyz with before' | ⟨same', -⟩
      · exact .inl (earlier_trans before before')
      · exact .inl (same' ▸ before)
    · rcases hyz with before' | ⟨same', below'⟩
      · exact .inl (same ▸ before')
      · exact .inr ⟨same.trans same', h.trans hx hy hz below below'⟩
  total {x y} hx hy := by
    rw [Prod.lex_def, Prod.lex_def]
    rcases earlier_cases earlier x.1 y.1 with before | same | behind
    · exact .inl (.inl before)
    · exact (h.total hx hy).imp (fun below => .inr ⟨same, below⟩)
        (fun above => .inr ⟨same.symm, above⟩)
    · exact .inr (.inl behind)
  beats_iff {x y} hx hy := by
    have asymmetric {s t : β} (before : earlier s t = true) : ¬ earlier t s = true :=
      fun behind => earlier_irrefl s (earlier_trans before behind)
    have apart {s t : β} (before : earlier s t = true) : s ≠ t :=
      fun same => earlier_irrefl t (same ▸ before)
    rw [Prod.lex_def, Bool.or_eq_true, Bool.and_eq_true, beq_iff_eq, h.beats_iff hx hy]
    rcases earlier_cases earlier x.1 y.1 with before | same | behind
    · simp [before, asymmetric before, (apart before).symm]
    · simp [same, earlier_irrefl]
    · simp [behind, asymmetric behind, (apart behind).symm]

end Pairs

end Credence
