import Mathlib.Data.List.Induction
import Mathlib.Order.WellFounded
import Credence.Proofs.Resolution

/-! # Leaders of a vote and their groups

A candidate leads where no leader before it asserts what it asserts, and every candidate belongs to
the first leader that asserts what it asserts. So each candidate belongs to exactly one group, even
where values are not told apart as by an equivalence. These are the groups that a vote forms, one
candidate after the other: a further candidate joins the group of its leader and leaves the others
as they are, or leads a group behind all others.
-/

namespace Credence.Resolution
variable {R : Type} [Scalar R]

def Candidate.literal (c : Candidate R) : Literal R := c.assertion.value

def Group.takes (g : Group R) (c : Candidate R) : Bool := g.first.literal.same c.literal

theorem addToGroups_cons (c : Candidate R) (g : Group R) (rest : List (Group R)) :
    addToGroups c (g :: rest) =
      if g.takes c then { g with rest := g.rest ++ [c] } :: rest else g :: addToGroups c rest :=
  rfl

/-- A candidate joins the first group that stands for its literal, or founds one. -/
theorem addToGroups_cases (c : Candidate R) (gs : List (Group R)) :
    (∃ before g after, gs = before ++ g :: after ∧ (∀ b ∈ before, b.takes c = false) ∧
      g.takes c = true ∧
      addToGroups c gs = before ++ { g with rest := g.rest ++ [c] } :: after) ∨
    ((∀ g ∈ gs, g.takes c = false) ∧ addToGroups c gs = gs ++ [⟨c, []⟩]) := by
  induction gs with
  | nil => exact .inr ⟨by simp, rfl⟩
  | cons g rest ih =>
    by_cases joins : g.takes c = true
    · rw [addToGroups_cons, if_pos joins]
      exact .inl ⟨[], g, rest, rfl, by simp, joins, rfl⟩
    · rw [addToGroups_cons, if_neg joins]
      have passes : g.takes c = false := Bool.eq_false_iff.2 joins
      rcases ih with ⟨before, g', after, rfl, ahead, joined, added⟩ | ⟨none, added⟩
      · rw [added]
        have ahead' : ∀ b ∈ g :: before, b.takes c = false :=
          List.forall_mem_cons.2 ⟨passes, ahead⟩
        exact .inl ⟨g :: before, g', after, rfl, ahead', joined, rfl⟩
      · rw [added]
        exact .inr ⟨List.forall_mem_cons.2 ⟨passes, none⟩, rfl⟩

/-- Asserts what the other candidate asserts. A candidate always asserts what it asserts itself,
even where that is an undefined number, which is not equal to itself. -/
def Candidate.Agrees (c d : Candidate R) : Prop := c = d ∨ c.literal.same d.literal = true

/-- Is a candidate, and no leader before it asserts what it asserts. -/
def Leads (assertions : List (Assertion R)) (c : Candidate R) : Prop :=
  c ∈ candidatesOf assertions ∧ ∀ d, d.index < c.index → Leads assertions d → ¬ d.Agrees c
termination_by c.index

/-- Is a candidate, and the other one is the first leader that asserts what it asserts. -/
structure Joins (assertions : List (Assertion R)) (c l : Candidate R) : Prop where
  mem : c ∈ candidatesOf assertions
  leads : Leads assertions l
  agrees : l.Agrees c
  first : ∀ d, Leads assertions d → d.Agrees c → l.index ≤ d.index

open scoped Classical in
/-- The candidates that belong to a leader, in the order of their positions. -/
noncomputable def groupOf (assertions : List (Assertion R)) (l : Candidate R) :
    List (Candidate R) :=
  (candidatesOf assertions).filter (fun c => Joins assertions c l)

variable {assertions : List (Assertion R)} {a : Assertion R} {c d l l' : Candidate R}

theorem leads_iff : Leads assertions c ↔
    c ∈ candidatesOf assertions ∧ ∀ d, d.index < c.index → Leads assertions d → ¬ d.Agrees c := by
  rw [Leads]

theorem Leads.mem (h : Leads assertions c) : c ∈ candidatesOf assertions := (leads_iff.1 h).1

theorem Leads.not_agrees (h : Leads assertions c) (before : d.index < c.index)
    (hd : Leads assertions d) : ¬ d.Agrees c :=
  (leads_iff.1 h).2 d before hd

theorem exists_leader_before (hc : c ∈ candidatesOf assertions) (follows : ¬ Leads assertions c) :
    ∃ d, d.index < c.index ∧ Leads assertions d ∧ d.Agrees c := by
  rw [leads_iff] at follows
  simpa [hc] using follows

theorem Leads.joins (h : Leads assertions c) : Joins assertions c c :=
  ⟨h.mem, h, .inl rfl, fun _ hd agrees => Nat.le_of_not_lt (fun before =>
    h.not_agrees before hd agrees)⟩

theorem exists_joins (hc : c ∈ candidatesOf assertions) : ∃ l, Joins assertions c l := by
  have some : ∃ l, Leads assertions l ∧ l.Agrees c := by
    by_cases leads : Leads assertions c
    · exact ⟨c, leads, .inl rfl⟩
    · obtain ⟨d, -, hd, agrees⟩ := exists_leader_before hc leads
      exact ⟨d, hd, agrees⟩
  obtain ⟨l, ⟨leads, agrees⟩, least⟩ := (measure Candidate.index).wf.has_min
    {l | Leads assertions l ∧ l.Agrees c} some
  exact ⟨l, hc, leads, agrees, fun d hd agrees' => Nat.le_of_not_lt (least d ⟨hd, agrees'⟩)⟩

section
omit [Scalar R]

theorem eq_of_index_eq (hc : c ∈ candidatesOf assertions) (hd : d ∈ candidatesOf assertions)
    (same : c.index = d.index) : c = d := by
  rw [mem_candidatesOf] at hc hd
  rw [same, hd, Option.some.injEq] at hc
  obtain ⟨i, a⟩ := c
  obtain ⟨j, b⟩ := d
  exact congrArg₂ _ same hc.symm

theorem index_lt_length (hc : c ∈ candidatesOf assertions) : c.index < assertions.length :=
  (List.getElem?_eq_some_iff.1 (mem_candidatesOf.1 hc)).1

theorem candidatesOf_append (assertions : List (Assertion R)) (a : Assertion R) :
    candidatesOf (assertions ++ [a]) = candidatesOf assertions ++ [⟨assertions.length, a⟩] := by
  simp [candidatesOf, List.zipIdx_append]

theorem mem_candidatesOf_append (below : c.index < assertions.length) :
    c ∈ candidatesOf (assertions ++ [a]) ↔ c ∈ candidatesOf assertions := by
  rw [mem_candidatesOf, mem_candidatesOf, List.getElem?_append_left below]

theorem last_mem_candidatesOf (assertions : List (Assertion R)) (a : Assertion R) :
    ⟨assertions.length, a⟩ ∈ candidatesOf (assertions ++ [a]) := by
  rw [candidatesOf_append]
  exact List.mem_append_right _ List.mem_cons_self

end

theorem Joins.unique (h : Joins assertions c l) (h' : Joins assertions c l') : l = l' :=
  eq_of_index_eq h.leads.mem h'.leads.mem
    (Nat.le_antisymm (h.first l' h'.leads h'.agrees) (h'.first l h.leads h.agrees))

/-- Every candidate belongs to exactly one leader. -/
theorem existsUnique_joins (hc : c ∈ candidatesOf assertions) : ∃! l, Joins assertions c l := by
  obtain ⟨l, joins⟩ := exists_joins hc
  exact ⟨l, joins, fun l' joins' => joins'.unique joins⟩

theorem Joins.index_le (h : Joins assertions c l) : l.index ≤ c.index := by
  by_cases leads : Leads assertions c
  · exact h.first c leads (.inl rfl)
  · obtain ⟨d, before, hd, agrees⟩ := exists_leader_before h.mem leads
    exact (h.first d hd agrees).trans before.le

theorem mem_groupOf : c ∈ groupOf assertions l ↔ Joins assertions c l := by
  simp only [groupOf, List.mem_filter, decide_eq_true_eq]
  exact ⟨fun h => h.2, fun h => ⟨h.mem, h⟩⟩

theorem groupOf_eq_filter {p : Candidate R → Bool}
    (h : ∀ c ∈ candidatesOf assertions, Joins assertions c l ↔ p c = true) :
    groupOf assertions l = (candidatesOf assertions).filter p := by
  refine List.filter_congr (fun c hc => ?_)
  rw [Bool.eq_iff_iff]
  simpa only [decide_eq_true_eq] using h c hc

theorem pairwise_groupOf (assertions : List (Assertion R)) (l : Candidate R) :
    (groupOf assertions l).Pairwise (fun c d => c.index < d.index) :=
  (pairwise_candidatesOf assertions).filter _

section Append

/-- Whether a candidate leads is settled by those before it. -/
theorem leads_append (below : c.index < assertions.length) :
    Leads (assertions ++ [a]) c ↔ Leads assertions c := by
  induction hn : c.index using Nat.strong_induction_on generalizing c with
  | h n ih =>
    rw [leads_iff, leads_iff, mem_candidatesOf_append below]
    refine and_congr_right fun _ => forall_congr' fun d => forall_congr' fun before => ?_
    rw [ih d.index (hn ▸ before) (before.trans below) rfl]

theorem Leads.append (h : Leads assertions l) : Leads (assertions ++ [a]) l :=
  (leads_append (index_lt_length h.mem)).2 h

theorem joins_append (below : c.index < assertions.length) :
    Joins (assertions ++ [a]) c l ↔ Joins assertions c l := by
  constructor
  · intro h
    exact ⟨(mem_candidatesOf_append below).1 h.mem,
      (leads_append (h.index_le.trans_lt below)).1 h.leads, h.agrees,
      fun d hd agrees => h.first d hd.append agrees⟩
  · intro h
    refine ⟨(mem_candidatesOf_append below).2 h.mem, h.leads.append, h.agrees,
      fun d hd agrees => ?_⟩
    by_cases known : d.index < assertions.length
    · exact h.first d ((leads_append known).1 hd) agrees
    · exact (h.index_le.trans_lt below).le.trans (Nat.le_of_not_lt known)

/-- A leader of a longer list leads already, or is the last candidate. -/
theorem Leads.known_or_last (h : Leads (assertions ++ [a]) l) :
    Leads assertions l ∨ l = ⟨assertions.length, a⟩ := by
  have member := h.mem
  rw [candidatesOf_append, List.mem_append, List.mem_singleton] at member
  exact member.imp_left fun known => (leads_append (index_lt_length known)).1 h

/-- A last candidate that follows a leader is no leader. -/
theorem leads_append_iff (leads : Leads assertions l)
    (joins : Joins (assertions ++ [a]) ⟨assertions.length, a⟩ l) :
    Leads (assertions ++ [a]) d ↔ Leads assertions d := by
  refine ⟨fun h => h.known_or_last.resolve_right ?_, Leads.append⟩
  rintro rfl
  exact h.not_agrees (index_lt_length leads.mem) joins.leads joins.agrees

theorem groupOf_append_of_joins (h : Joins (assertions ++ [a]) ⟨assertions.length, a⟩ l) :
    groupOf (assertions ++ [a]) l = groupOf assertions l ++ [⟨assertions.length, a⟩] := by
  unfold groupOf
  rw [candidatesOf_append, List.filter_append, List.filter_cons_of_pos (by simpa using h),
    List.filter_nil]
  congr 1
  exact List.filter_congr fun c hc => by rw [joins_append (index_lt_length hc)]

theorem groupOf_append_of_not_joins (h : ¬ Joins (assertions ++ [a]) ⟨assertions.length, a⟩ l) :
    groupOf (assertions ++ [a]) l = groupOf assertions l := by
  unfold groupOf
  rw [candidatesOf_append, List.filter_append, List.filter_cons_of_neg (by simpa using h),
    List.filter_nil, List.append_nil]
  exact List.filter_congr fun c hc => by rw [joins_append (index_lt_length hc)]

end Append

/-- Groups that are led by the leaders, in the order of these, and have those as members that belong
to them. -/
structure Led (assertions : List (Assertion R)) (gs : List (Group R)) : Prop where
  ordered : (gs.map Group.first).Pairwise (fun l l' => l.index < l'.index)
  leads_iff_mem : ∀ l, Leads assertions l ↔ l ∈ gs.map Group.first
  members_eq : ∀ g ∈ gs, g.members = groupOf assertions g.first

namespace Led
variable {gs : List (Group R)} {g : Group R}

theorem leads (h : Led assertions gs) (hg : g ∈ gs) : Leads assertions g.first :=
  (h.leads_iff_mem _).2 (List.mem_map_of_mem hg)

/-- A leader that another candidate is not agrees with it where its group takes it. -/
theorem agrees_iff_takes (h : Led assertions gs) (hg : g ∈ gs) :
    g.first.Agrees ⟨assertions.length, a⟩ ↔ g.takes ⟨assertions.length, a⟩ = true := by
  have apart : g.first ≠ ⟨assertions.length, a⟩ := by
    intro same
    have below := index_lt_length (h.leads hg).mem
    rw [same] at below
    exact Nat.lt_irrefl _ below
  exact or_iff_right apart

/-- The last candidate belongs to the first group that takes it. -/
theorem joins_of_takes {before after : List (Group R)} (h : Led assertions (before ++ g :: after))
    (ahead : ∀ b ∈ before, b.takes ⟨assertions.length, a⟩ = false)
    (takes : g.takes ⟨assertions.length, a⟩ = true) :
    Joins (assertions ++ [a]) ⟨assertions.length, a⟩ g.first := by
  have hg : g ∈ before ++ g :: after := List.mem_append_right _ List.mem_cons_self
  refine ⟨last_mem_candidatesOf _ _, (h.leads hg).append, .inr takes, fun d hd agrees => ?_⟩
  rcases hd.known_or_last with known | rfl
  · obtain ⟨b, hb, rfl⟩ := List.mem_map.1 ((h.leads_iff_mem d).1 known)
    have taken := (h.agrees_iff_takes hb).1 agrees
    rcases List.mem_append.1 hb with early | late
    · rw [ahead b early] at taken
      cases taken
    · rcases List.mem_cons.1 late with rfl | behind
      · exact Nat.le_refl _
      · have ordered := h.ordered
        rw [List.map_append, List.map_cons] at ordered
        exact (List.rel_of_pairwise_cons (List.pairwise_append.1 ordered).2.1
          (List.mem_map_of_mem behind)).le
  · exact (index_lt_length (h.leads hg).mem).le

theorem add_joining {before after : List (Group R)} (h : Led assertions (before ++ g :: after))
    (ahead : ∀ b ∈ before, b.takes ⟨assertions.length, a⟩ = false)
    (takes : g.takes ⟨assertions.length, a⟩ = true) :
    Led (assertions ++ [a])
      (before ++ { g with rest := g.rest ++ [⟨assertions.length, a⟩] } :: after) := by
  have joins := h.joins_of_takes ahead takes
  have hg : g ∈ before ++ g :: after := List.mem_append_right _ List.mem_cons_self
  have ordered := h.ordered
  rw [List.map_append, List.map_cons] at ordered
  have unchanged {b : Group R} (hb : b ∈ before ++ g :: after)
      (apart : b.first.index ≠ g.first.index) :
      b.members = groupOf (assertions ++ [a]) b.first := by
    rw [h.members_eq b hb, groupOf_append_of_not_joins]
    exact fun joins' => apart (congrArg Candidate.index (joins'.unique joins))
  constructor
  case ordered =>
    rw [List.map_append, List.map_cons]
    exact ordered
  case leads_iff_mem =>
    intro l
    have known := h.leads_iff_mem l
    rw [List.map_append, List.map_cons] at known ⊢
    rw [← known]
    exact leads_append_iff (h.leads hg) joins
  case members_eq =>
    intro b hb
    rcases List.mem_append.1 hb with early | late
    · exact unchanged (List.mem_append_left _ early) (Nat.ne_of_lt
        ((List.pairwise_append.1 ordered).2.2 _ (List.mem_map_of_mem early) _ List.mem_cons_self))
    · rcases List.mem_cons.1 late with rfl | behind
      · rw [groupOf_append_of_joins joins, ← h.members_eq g hg]
        rfl
      · exact unchanged (List.mem_append_right _ (List.mem_cons_of_mem _ behind))
          (Nat.ne_of_gt (List.rel_of_pairwise_cons (List.pairwise_append.1 ordered).2.1
            (List.mem_map_of_mem behind)))

theorem add_founding (h : Led assertions gs)
    (none : ∀ g ∈ gs, g.takes ⟨assertions.length, a⟩ = false) :
    Led (assertions ++ [a]) (gs ++ [⟨⟨assertions.length, a⟩, []⟩]) := by
  have leads : Leads (assertions ++ [a]) ⟨assertions.length, a⟩ := by
    refine leads_iff.2 ⟨last_mem_candidatesOf _ _, fun d before hd agrees => ?_⟩
    obtain ⟨b, hb, rfl⟩ := List.mem_map.1 ((h.leads_iff_mem d).1 ((leads_append before).1 hd))
    have taken := (h.agrees_iff_takes hb).1 agrees
    rw [none b hb] at taken
    cases taken
  constructor
  case ordered =>
    rw [List.map_append, List.map_singleton, List.pairwise_append]
    refine ⟨h.ordered, List.pairwise_singleton _ _, fun l hl l' hl' => ?_⟩
    rw [List.mem_singleton.1 hl']
    exact index_lt_length ((h.leads_iff_mem l).2 hl).mem
  case leads_iff_mem =>
    intro l
    rw [List.map_append, List.map_singleton, List.mem_append, List.mem_singleton, ← h.leads_iff_mem]
    refine ⟨Leads.known_or_last, ?_⟩
    rintro (known | rfl)
    · exact known.append
    · exact leads
  case members_eq =>
    intro b hb
    rcases List.mem_append.1 hb with known | new
    · rw [h.members_eq b known, groupOf_append_of_not_joins]
      intro joins
      have same := joins.unique leads.joins
      have below := index_lt_length (h.leads known).mem
      rw [same] at below
      exact Nat.lt_irrefl _ below
    · rw [List.mem_singleton.1 new, groupOf_append_of_joins leads.joins]
      have empty : groupOf assertions ⟨assertions.length, a⟩ = [] := by
        rw [List.eq_nil_iff_forall_not_mem]
        intro c hc
        exact Nat.lt_irrefl _ (index_lt_length (mem_groupOf.1 hc).leads.mem)
      rw [empty]
      rfl

theorem add (h : Led assertions gs) :
    Led (assertions ++ [a]) (addToGroups ⟨assertions.length, a⟩ gs) := by
  rcases addToGroups_cases ⟨assertions.length, a⟩ gs with
    ⟨before, g, after, rfl, ahead, takes, added⟩ | ⟨none, added⟩
  · rw [added]
    exact h.add_joining ahead takes
  · rw [added]
    exact h.add_founding none

end Led

theorem led_groups (assertions : List (Assertion R)) :
    Led assertions (groups (candidatesOf assertions)) := by
  induction assertions using List.reverseRecOn with
  | nil =>
    refine ⟨.nil, fun l => ⟨fun leads => ?_, fun hl => ?_⟩, fun g hg => ?_⟩
    · cases leads.mem
    · cases hl
    · cases hg
  | append_singleton assertions a ih =>
    have step : groups (candidatesOf (assertions ++ [a])) =
        addToGroups ⟨assertions.length, a⟩ (groups (candidatesOf assertions)) := by
      simp [candidatesOf_append, groups]
    rw [step]
    exact ih.add

end Credence.Resolution
