import Mathlib.Data.List.Basic
import Credence.Scalar.Leader

/-! # The element that ends in the lead

Where challenges follow a strict weak order the leader is the first of the best elements: it beats
every element before it, and no element after it beats it. This holds of one element only.
-/

namespace Credence
variable {α : Type}

/-- Two places of one list are the same place, or each is on the other's side. -/
theorem split_cases {before after before' after' : List α} {x y : α}
    (h : before ++ x :: after = before' ++ y :: after') :
    (before = before' ∧ x = y ∧ after = after') ∨ (x ∈ before' ∧ y ∈ after) ∨
      (y ∈ before ∧ x ∈ after') := by
  rcases List.append_eq_append_iff.1 h with ⟨mid, rfl, tail⟩ | ⟨mid, rfl, tail⟩
  · rcases List.cons_eq_append_iff.1 tail with ⟨rfl, lead⟩ | ⟨mid', rfl, rfl⟩
    · rw [List.cons.injEq] at lead
      exact .inl ⟨(List.append_nil before).symm, lead.1.symm, lead.2.symm⟩
    · exact .inr (.inl ⟨by simp, by simp⟩)
  · rcases List.cons_eq_append_iff.1 tail with ⟨rfl, lead⟩ | ⟨mid', rfl, rfl⟩
    · rw [List.cons.injEq] at lead
      exact .inl ⟨List.append_nil before', lead.1, lead.2⟩
    · exact .inr (.inr ⟨by simp, by simp⟩)

/-- Challenges that can be told apart only by how good their elements are. -/
structure StrictWeak (beats : α → α → Bool) : Prop where
  asymm : ∀ {a b}, beats a b = true → beats b a = false
  weak : ∀ {a b c}, beats a b = false → beats b c = false → beats a c = false

namespace StrictWeak
variable {beats : α → α → Bool}

theorem irrefl (h : StrictWeak beats) (a : α) : beats a a = false := by
  cases ha : beats a a with
  | false => rfl
  | true => exact ha ▸ h.asymm ha

theorem trans (h : StrictWeak beats) {a b c : α} (hab : beats a b = true)
    (hbc : beats b c = true) : beats a c = true := by
  by_contra hac
  have hcb := h.asymm hbc
  have := h.weak (Bool.eq_false_iff.2 hac) hcb
  simp [hab] at this

theorem beats_of_beats_of_not (h : StrictWeak beats) {a b c : α} (hab : beats a b = true)
    (hcb : beats c b = false) : beats a c = true := by
  by_contra hac
  have := h.weak (Bool.eq_false_iff.2 hac) hcb
  simp [hab] at this

/-- The leader beats what stands before it and is beaten by nothing behind it. -/
theorem leader_split (h : StrictWeak beats) (first : α) (rest : List α) :
    ∃ before after, first :: rest = before ++ leader beats first rest :: after ∧
      (∀ x ∈ before, beats (leader beats first rest) x = true) ∧
      ∀ x ∈ after, beats x (leader beats first rest) = false := by
  -- The first element is general: it is the one in the lead when the next one challenges.
  induction rest generalizing first with
  | nil => exact ⟨[], [], rfl, by simp, by simp⟩
  | cons next rest ih =>
    rw [leader_cons]
    by_cases challenge : beats next first = true
    · rw [if_pos challenge]
      rcases ih next with ⟨before, after, split, ahead, behind⟩
      refine ⟨first :: before, after, by rw [split]; rfl, ?_, behind⟩
      intro x hx
      rcases List.mem_cons.1 hx with rfl | hx
      · rcases List.append_eq_cons_iff.1 split.symm with ⟨-, lead⟩ | ⟨before', rfl, -⟩
        · rw [List.cons.injEq] at lead
          rw [lead.1]
          exact challenge
        · exact h.trans (ahead next List.mem_cons_self) challenge
      · exact ahead x hx
    · rw [if_neg challenge]
      have challenge : beats next first = false := Bool.eq_false_iff.2 challenge
      rcases ih first with ⟨before, after, split, ahead, behind⟩
      rcases List.append_eq_cons_iff.1 split.symm with ⟨rfl, lead⟩ | ⟨before', rfl, tail⟩
      · rw [List.cons.injEq] at lead
        refine ⟨[], next :: rest, by rw [lead.1]; rfl, by simp, ?_⟩
        intro x hx
        rw [lead.1]
        rcases List.mem_cons.1 hx with rfl | hx
        · exact challenge
        · have := behind x (lead.2 ▸ hx)
          rwa [lead.1] at this
      · refine ⟨first :: next :: before', after,
          by rw [List.cons_append, List.cons_append, ← tail], ?_, behind⟩
        have beaten := ahead first List.mem_cons_self
        intro x hx
        rcases List.mem_cons.1 hx with rfl | hx
        · exact beaten
        · rcases List.mem_cons.1 hx with rfl | hx
          · exact h.beats_of_beats_of_not beaten challenge
          · exact ahead x (List.mem_cons_of_mem _ hx)

theorem not_beats_leader (h : StrictWeak beats) {first : α} {rest : List α} {x : α}
    (hx : x ∈ first :: rest) : beats x (leader beats first rest) = false := by
  rcases h.leader_split first rest with ⟨before, after, split, ahead, behind⟩
  rw [split] at hx
  rcases List.mem_append.1 hx with hx | hx
  · exact h.asymm (ahead x hx)
  · rcases List.mem_cons.1 hx with rfl | hx
    · exact h.irrefl _
    · exact behind x hx

theorem eq_leader_of_split (h : StrictWeak beats) {first v : α} {rest before after : List α}
    (split : first :: rest = before ++ v :: after) (ahead : ∀ x ∈ before, beats v x = true)
    (behind : ∀ x ∈ after, beats x v = false) : leader beats first rest = v := by
  rcases h.leader_split first rest with ⟨before', after', split', ahead', behind'⟩
  rw [split] at split'
  rcases split_cases split' with ⟨-, same, -⟩ | ⟨hv, hl⟩ | ⟨hl, hv⟩
  · exact same.symm
  · have leads := ahead' v hv
    have beaten := behind _ hl
    rw [leads] at beaten
    cases beaten
  · have leads := ahead _ hl
    have beaten := behind' v hv
    rw [leads] at beaten
    cases beaten

end StrictWeak
end Credence
