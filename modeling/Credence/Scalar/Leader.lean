/-! # The first best of a list

Ties go to the earlier element: a later one takes the lead only where it beats the leader.
-/

namespace Credence
variable {α : Type}

/-- The element left in the lead after each further one has challenged it. -/
def leader (beats : α → α → Bool) (first : α) (rest : List α) : α :=
  rest.foldl (fun best next => if beats next best then next else best) first

@[simp] theorem leader_nil (beats : α → α → Bool) (first : α) : leader beats first [] = first := rfl

theorem leader_cons (beats : α → α → Bool) (first next : α) (rest : List α) :
    leader beats first (next :: rest) =
      leader beats (if beats next first then next else first) rest := rfl

theorem leader_mem (beats : α → α → Bool) (first : α) (rest : List α) :
    leader beats first rest ∈ first :: rest := by
  induction rest generalizing first with
  | nil => simp
  | cons next rest ih =>
    rw [leader_cons]
    split
    · exact List.mem_cons_of_mem _ (ih next)
    · rcases List.mem_cons.1 (ih first) with same | behind
      · rw [same]
        exact List.mem_cons_self
      · exact List.mem_cons_of_mem _ (List.mem_cons_of_mem _ behind)

end Credence
