import Mathlib.Data.List.Forall2
import Credence.Score.Basic

/-! # Computations that may refuse

A computation in steps yields a result exactly when every step does, and a traversal of a list
exactly when it does so on every element. Runs are taken apart by these equivalences only.
-/

namespace Credence

variable {ε α β : Type}

theorem bind_eq_ok_iff {x : Except ε α} {f : α → Except ε β} {b : β} :
    x >>= f = .ok b ↔ ∃ a, x = .ok a ∧ f a = .ok b := by
  cases x with
  | error e => simp [bind, Except.bind]
  | ok a => simp [bind, Except.bind]

theorem map_eq_ok_iff {x : Except ε α} {f : α → β} {b : β} :
    x.map f = .ok b ↔ ∃ a, x = .ok a ∧ f a = b := by
  cases x with
  | error e => simp [Except.map]
  | ok a => simp [Except.map]

theorem exists_map_iff {x : Except ε α} {f : α → β} :
    (∃ b, x.map f = .ok b) ↔ ∃ a, x = .ok a := by
  simp [map_eq_ok_iff]

theorem exists_eq_ok_of_isOk {x : Except ε α} (h : x.isOk = true) : ∃ a, x = .ok a := by
  cases x with
  | error e => cases h
  | ok a => exact ⟨a, rfl⟩

theorem exists_eq_ok_of_any {x : Except ε α} {p : α → Bool} (h : x.toOption.any p = true) :
    ∃ a, x = .ok a ∧ p a = true := by
  cases x with
  | error e => cases h
  | ok a => exact ⟨a, rfl, h⟩

theorem mapError_eq_ok_iff {δ : Type} {x : Except ε α} {f : ε → δ} {a : α} :
    x.mapError f = .ok a ↔ x = .ok a := by
  cases x with
  | error e => simp [Except.mapError]
  | ok b => simp [Except.mapError]

theorem validated_eq_ok_iff {R : Type} {x : Except (ValidationError R) α} {a : α} :
    validated x = .ok a ↔ x = .ok a := mapError_eq_ok_iff

theorem mapM_eq_ok_iff {f : α → Except ε β} {xs : List α} {ys : List β} :
    xs.mapM f = .ok ys ↔ List.Forall₂ (fun x y => f x = .ok y) xs ys := by
  induction xs generalizing ys with
  | nil => simp [pure, Except.pure, eq_comm]
  | cons x xs ih =>
    rw [List.mapM_cons, bind_eq_ok_iff, List.forall₂_cons_left_iff]
    simp only [bind_eq_ok_iff, ih]
    constructor
    · rintro ⟨y, hy, ys', hys, h⟩
      exact ⟨y, ys', hy, hys, (Except.ok.inj h).symm⟩
    · rintro ⟨y, ys', hy, hys, rfl⟩
      exact ⟨y, hy, ys', hys, rfl⟩

theorem forM_eq_ok_iff {f : α → Except ε Unit} {xs : List α} :
    xs.forM f = .ok () ↔ ∀ x ∈ xs, f x = .ok () := by
  induction xs with
  | nil => simp [pure, Except.pure]
  | cons x xs ih =>
    change (f x >>= fun _ => xs.forM f) = .ok () ↔ _
    rw [bind_eq_ok_iff, List.forall_mem_cons]
    constructor
    · rintro ⟨u, hx, hxs⟩
      exact ⟨hx, ih.1 hxs⟩
    · rintro ⟨hx, hxs⟩
      exact ⟨(), hx, ih.2 hxs⟩

theorem forall_mem_middle {p : α → Prop} {before after : List α} {a : α} :
    (∀ x ∈ before ++ a :: after, p x) ↔ p a ∧ ∀ x ∈ before ++ after, p x := by
  rw [← List.forall_mem_cons]
  exact forall_congr' (fun x => imp_congr_left List.perm_middle.mem_iff)

/-- What is made of some scores is made exactly where there is one and all of them are scores. -/
theorem checked_eq_ok_iff {R : Type} [Scalar R] {scores : List R} {input : InputRole}
    {role : ScoreRole} {made result : α} :
    (do
      if scores.isEmpty then throw (.validation (.emptyInput input))
      validated (scores.forM (checkScore role))
      return made : Except (Error R) α) = .ok result ↔
      scores ≠ [] ∧ (∀ s ∈ scores, Scalar.InUnit s) ∧ result = made := by
  cases scores with
  | nil => simp [bind, Except.bind, throw, throwThe, MonadExceptOf.throw]
  | cons s rest =>
    rw [if_neg (by simp)]
    simp only [bind_eq_ok_iff, validated_eq_ok_iff]
    constructor
    · rintro ⟨u, checked, h⟩
      refine ⟨List.cons_ne_nil s rest, fun t ht => ?_, (Except.ok.inj h).symm⟩
      exact checkScore_eq_ok_iff.1 (forM_eq_ok_iff.1 checked t ht)
    · rintro ⟨-, units, rfl⟩
      exact ⟨(), forM_eq_ok_iff.2 (fun t ht => checkScore_eq_ok_iff.2 (units t ht)), rfl⟩

/-- Refuses, if at all, for a value outside its domain. -/
def Validates {R : Type} (x : Except (Error R) α) : Prop :=
  ∀ e, x = .error e → ∃ fault, e = .validation fault

namespace Validates
variable {R : Type}

theorem ok (a : α) : Validates (R := R) (.ok a) := by
  intro e h
  cases h

theorem throw (fault : ValidationError R) :
    Validates (throw (.validation fault) : Except (Error R) α) := by
  intro e h
  cases h
  exact ⟨fault, rfl⟩

theorem validated (x : Except (ValidationError R) α) : Validates (validated x) := by
  intro e h
  cases x with
  | error fault =>
    cases h
    exact ⟨fault, rfl⟩
  | ok a => cases h

theorem bind {x : Except (Error R) α} {f : α → Except (Error R) β} (hx : Validates x)
    (hf : ∀ a, Validates (f a)) : Validates (x >>= f) := by
  intro e h
  cases x with
  | error e' =>
    cases h
    exact hx _ rfl
  | ok a => exact hf a e h

theorem map {x : Except (Error R) α} (hx : Validates x) (f : α → β) : Validates (x.map f) := by
  intro e h
  cases x with
  | error e' =>
    cases h
    exact hx _ rfl
  | ok a => cases h

theorem mapM {f : α → Except (Error R) β} (hf : ∀ a, Validates (f a)) (xs : List α) :
    Validates (xs.mapM f) := by
  induction xs with
  | nil => exact ok []
  | cons x xs ih =>
    rw [List.mapM_cons]
    exact (hf x).bind (fun y => ih.bind (fun ys => ok (y :: ys)))

/-- What refuses for such values alone and has no result does refuse for one. -/
theorem exists_error {x : Except (Error R) α} (h : Validates x) (fails : ∀ a, x ≠ .ok a) :
    ∃ fault, x = .error (.validation fault) := by
  cases hx : x with
  | error e =>
    rcases h e hx with ⟨fault, rfl⟩
    exact ⟨fault, rfl⟩
  | ok a => exact absurd hx (fails a)

end Validates

theorem exists_forall₂ {r : α → β → Prop} {xs : List α} (h : ∀ x ∈ xs, ∃ y, r x y) :
    ∃ ys, List.Forall₂ r xs ys := by
  induction xs with
  | nil => exact ⟨[], .nil⟩
  | cons x xs ih =>
    rcases h x List.mem_cons_self with ⟨y, hy⟩
    rcases ih (fun z hz => h z (List.mem_cons_of_mem x hz)) with ⟨ys, hys⟩
    exact ⟨y :: ys, .cons hy hys⟩

theorem exists_mem_of_forall₂ {r : α → β → Prop} {xs : List α} {ys : List β}
    (h : List.Forall₂ r xs ys) {x : α} (hx : x ∈ xs) : ∃ y ∈ ys, r x y := by
  induction h with
  | nil => cases hx
  | @cons x' y' xs ys hxy _ ih =>
    rcases List.mem_cons.1 hx with rfl | behind
    · exact ⟨y', List.mem_cons_self, hxy⟩
    · rcases ih behind with ⟨y, hy, hr⟩
      exact ⟨y, List.mem_cons_of_mem _ hy, hr⟩

theorem exists_mapM_iff {f : α → Except ε β} {xs : List α} :
    (∃ ys, xs.mapM f = .ok ys) ↔ ∀ x ∈ xs, ∃ y, f x = .ok y := by
  simp only [mapM_eq_ok_iff]
  constructor
  · rintro ⟨ys, h⟩ x hx
    obtain ⟨y, -, hy⟩ := exists_mem_of_forall₂ h hx
    exact ⟨y, hy⟩
  · exact exists_forall₂

theorem exists_mapM_related {f : α → Except ε β} {r : α → β → Prop} {xs : List α}
    (h : ∀ x ∈ xs, ∃ y, f x = .ok y ∧ r x y) :
    ∃ ys, xs.mapM f = .ok ys ∧ List.Forall₂ r xs ys := by
  obtain ⟨ys, both⟩ := exists_forall₂ h
  exact ⟨ys, mapM_eq_ok_iff.2 (both.imp (fun _ _ h => h.1)), both.imp (fun _ _ h => h.2)⟩

theorem map_eq_map_of_forall₂ {γ : Type} {f : α → γ} {g : β → γ} {xs : List α} {ys : List β}
    (h : List.Forall₂ (fun x y => g y = f x) xs ys) : ys.map g = xs.map f := by
  induction h with
  | nil => rfl
  | cons hxy _ ih => rw [List.map_cons, List.map_cons, hxy, ih]

theorem map_eq_map_of_related {γ : Type} {r : α → β → Prop} {f : α → γ} {g : β → γ} {xs : List α}
    {ys : List β} (h : List.Forall₂ r xs ys) (same : ∀ x ∈ xs, ∀ y, r x y → g y = f x) :
    ys.map g = xs.map f := by
  have both := (List.forall₂_and_left xs ys).2 ⟨same, h⟩
  exact map_eq_map_of_forall₂ (both.imp (fun x y pair => pair.1 y pair.2))

/-- Two results of one list stand in a relation that two results of one element stand in. -/
theorem forall₂_of_common {γ : Type} {r : α → β → Prop} {s : α → γ → Prop} {t : β → γ → Prop}
    (step : ∀ {x y z}, r x y → s x z → t y z) {xs : List α} {ys : List β} {zs : List γ}
    (h : List.Forall₂ r xs ys) (h' : List.Forall₂ s xs zs) : List.Forall₂ t ys zs := by
  induction h generalizing zs with
  | nil =>
    cases h'
    exact .nil
  | cons hxy _ ih =>
    cases h' with
    | cons hxz rest => exact .cons (step hxy hxz) (ih rest)

theorem forall₂_of_map_eq {κ : Type} {r : α → β → Prop} {f : α → κ} {g : β → κ} {xs : List α}
    {ys : List β} (keys : xs.map f = ys.map g)
    (step : ∀ x ∈ xs, ∀ y ∈ ys, f x = g y → r x y) : List.Forall₂ r xs ys := by
  induction xs generalizing ys with
  | nil =>
    rw [List.map_nil, eq_comm, List.map_eq_nil_iff] at keys
    exact keys ▸ .nil
  | cons x xs ih =>
    cases ys with
    | nil => cases keys
    | cons y ys =>
      rw [List.map_cons, List.map_cons, List.cons.injEq] at keys
      refine .cons (step x List.mem_cons_self y List.mem_cons_self keys.1) (ih keys.2 ?_)
      intro x' hx' y' hy'
      exact step x' (List.mem_cons_of_mem x hx') y' (List.mem_cons_of_mem y hy')

/-- A fold whose steps keep a property of their result, and never fail where they start from one,
does not fail either. -/
theorem exists_foldlM_of_step {f : β → α → Except ε β} {p : β → Prop} {xs : List α}
    (step : ∀ y, p y → ∀ x ∈ xs, ∃ z, f y x = .ok z ∧ p z) {y : β} (hy : p y) :
    ∃ z, xs.foldlM f y = .ok z ∧ p z := by
  induction xs generalizing y with
  | nil => exact ⟨y, rfl, hy⟩
  | cons x xs ih =>
    obtain ⟨next, made, hnext⟩ := step y hy x List.mem_cons_self
    obtain ⟨z, run, hz⟩ := ih (fun y hy x' hx' => step y hy x' (List.mem_cons_of_mem x hx')) hnext
    exact ⟨z, List.foldlM_cons.trans (bind_eq_ok_iff.2 ⟨next, made, run⟩), hz⟩

theorem exists_step_of_foldlM {f : β → α → Except ε β} {xs : List α} {y z : β}
    (run : xs.foldlM f y = .ok z) : ∀ x ∈ xs, ∃ y' z', f y' x = .ok z' := by
  induction xs generalizing y with
  | nil => exact List.forall_mem_nil _
  | cons x xs ih =>
    obtain ⟨next, made, run⟩ := bind_eq_ok_iff.1 (List.foldlM_cons.symm.trans run)
    exact List.forall_mem_cons.2 ⟨⟨y, next, made⟩, ih run⟩

/-- Wherever one computation yields a result, another one yields its image. -/
def Mirrors {δ : Type} (g : α → β) (x : Except ε α) (y : Except δ β) : Prop :=
  ∀ a, x = .ok a → y = .ok (g a)

namespace Mirrors
variable {δ α' β' : Type} {g : α → α'} {h : β → β'}

theorem bind {x : Except ε α} {y : Except δ α'} {f : α → Except ε β} {f' : α' → Except δ β'}
    (hx : Mirrors g x y) (hf : ∀ a, Mirrors h (f a) (f' (g a))) :
    Mirrors h (x >>= f) (y >>= f') := by
  intro b run
  obtain ⟨a, ha, hb⟩ := bind_eq_ok_iff.1 run
  exact bind_eq_ok_iff.2 ⟨g a, hx a ha, hf a b hb⟩

theorem mapM {f : α → Except ε β} {f' : α' → Except δ β'}
    (hf : ∀ a, Mirrors h (f a) (f' (g a))) (xs : List α) :
    Mirrors (List.map h) (xs.mapM f) ((xs.map g).mapM f') := by
  intro ys run
  have each := mapM_eq_ok_iff.1 run
  refine mapM_eq_ok_iff.2 (List.forall₂_map_left_iff.2 (List.forall₂_map_right_iff.2 ?_))
  exact each.imp (fun a b made => hf a b made)

theorem foldlM {f : β → α → Except ε β} {f' : β' → α' → Except δ β'}
    (hf : ∀ b a, Mirrors h (f b a) (f' (h b) (g a))) (xs : List α) (b : β) :
    Mirrors h (xs.foldlM f b) ((xs.map g).foldlM f' (h b)) := by
  induction xs generalizing b with
  | nil =>
    intro c run
    cases run
    rfl
  | cons x xs ih =>
    rw [List.map_cons, List.foldlM_cons, List.foldlM_cons]
    exact (hf b x).bind ih

end Mirrors

end Credence
