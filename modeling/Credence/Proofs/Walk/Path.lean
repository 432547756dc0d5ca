import Mathlib.Order.Bounds.Defs
import Credence.Proofs.Score.Propagation
import Credence.Scalar.Binary64
import Credence.Walk

/-! # Walks as paths

Names lead from a node to a node nested in it. A walk along a chain ends at the first annotated
value, or else with the last name, if the names before lead so far; it halts at the first name that
the node reached does not have, or that follows a value that cannot be walked through. It does one
or the other, and what it collects are the confidences of the values met up to its end.
-/

namespace Credence
variable {R : Type}

def WalkError.deeper (more : Nat) : WalkError → WalkError
  | .missingProperty property depth => .missingProperty property (depth + more)
  | .notTraversable property depth found => .notTraversable property (depth + more) found

namespace WalkError

def depth : WalkError → Nat
  | .missingProperty _ depth | .notTraversable _ depth _ => depth

@[simp] theorem deeper_zero (e : WalkError) : e.deeper 0 = e := by cases e <;> rfl

theorem deeper_deeper (e : WalkError) (m n : Nat) :
    (e.deeper m).deeper n = e.deeper (n + m) := by
  cases e <;> simp [deeper, Nat.add_comm n m, Nat.add_assoc]

end WalkError

/-- A value that no walk goes through, other than by ending there. -/
inductive PropertyValue.Blocks : PropertyValue R → Prop
  | literal (l : Literal R) : Blocks (.literal l)
  | list (items : List (PropertyValue R)) : Blocks (.list items)

namespace Node

def child? (n : Node R) (name : String) : Option (Node R) :=
  (n.get? name).bind PropertyValue.node?

/-- The node that names lead to through nested nodes. -/
def reach? (root : Node R) : List String → Option (Node R)
  | [] => some root
  | name :: rest => (root.child? name).bind (fun child => child.reach? rest)

/-- The value that the name at a depth has on the node that the names before it lead to. -/
def met? (root : Node R) (chain : List String) (depth : Nat) : Option (PropertyValue R) :=
  (root.reach? (chain.take depth)).bind (fun n => chain[depth]?.bind n.get?)

/-- With its first `m` names, at least one, a chain ends: they lead to a value, and either no name
is left or the value is an annotated one. -/
def Ends (root : Node R) (chain : List String) (m : Nat) : Prop :=
  ∃ depth v, m = depth + 1 ∧ root.met? chain depth = some v ∧
    (m = chain.length ∨ ∃ a, v = .annotated a)

/-- At a depth a chain cannot be followed: the node reached lacks the name there, or the value met
before is a literal or a list. -/
inductive Halts (root : Node R) (chain : List String) : Nat → WalkError → Prop
  | missing {depth : Nat} {n : Node R} {name : String}
      (reached : root.reach? (chain.take depth) = some n) (next : chain[depth]? = some name)
      (absent : n.get? name = none) : Halts root chain depth (.missingProperty name depth)
  | blocked (depth : Nat) {v : PropertyValue R} {name : String}
      (met : root.met? chain depth = some v) (blocks : v.Blocks)
      (next : chain[depth + 1]? = some name) :
      Halts root chain (depth + 1) (.notTraversable name (depth + 1) v.kind)

section
variable {root child n : Node R} {name : String} {rest chain : List String} {v : PropertyValue R}
  {depth m : Nat} {e : WalkError}

theorem child?_eq_some_iff :
    root.child? name = some child ↔ root.get? name = some (.node child) := by
  unfold child?
  cases root.get? name with
  | none => simp
  | some v => cases v <;> simp [PropertyValue.node?]

theorem reach?_cons_eq_some_iff : root.reach? (name :: rest) = some n ↔
    ∃ child, root.child? name = some child ∧ child.reach? rest = some n :=
  Option.bind_eq_some_iff

theorem met?_zero : root.met? (name :: rest) 0 = root.get? name := rfl

theorem met?_succ : root.met? (name :: rest) (depth + 1) =
    (root.child? name).bind (fun child => child.met? rest depth) := by
  simp only [met?, List.take_succ_cons, reach?, List.getElem?_cons_succ, Option.bind_assoc]

theorem met?_succ_eq_some_iff : root.met? (name :: rest) (depth + 1) = some v ↔
    ∃ child, root.child? name = some child ∧ child.met? rest depth = some v := by
  rw [met?_succ, Option.bind_eq_some_iff]

theorem lt_length_of_met? (met : root.met? chain depth = some v) : depth < chain.length := by
  obtain ⟨n, -, met⟩ := Option.bind_eq_some_iff.1 met
  obtain ⟨name, next, -⟩ := Option.bind_eq_some_iff.1 met
  exact (List.getElem?_eq_some_iff.1 next).1

theorem Ends.le_length (h : root.Ends chain m) : m ≤ chain.length := by
  obtain ⟨depth, v, rfl, met, -⟩ := h
  exact lt_length_of_met? met

theorem Ends.ne_nil (h : root.Ends chain m) : chain ≠ [] := by
  obtain ⟨depth, v, rfl, met, -⟩ := h
  exact List.ne_nil_of_length_pos (Nat.zero_lt_of_lt (lt_length_of_met? met))

/-- The end of a chain is its first name or an end of what is left at the node under this name. -/
theorem ends_cons_iff : root.Ends (name :: rest) m ↔
    (∃ v, root.get? name = some v ∧ m = 1 ∧ (rest = [] ∨ ∃ a, v = .annotated a)) ∨
      ∃ child m', root.child? name = some child ∧ child.Ends rest m' ∧ m = m' + 1 := by
  constructor
  · rintro ⟨depth, v, rfl, met, last⟩
    cases depth with
    | zero => exact .inl ⟨v, met, rfl, last.imp_left (fun length => by simpa using length)⟩
    | succ depth =>
      obtain ⟨child, found, met⟩ := met?_succ_eq_some_iff.1 met
      refine .inr ⟨child, depth + 1, found, ⟨depth, v, rfl, met, last.imp_left ?_⟩, rfl⟩
      exact Nat.succ.inj
  · rintro (⟨v, found, rfl, last⟩ | ⟨child, -, found, ⟨depth, v, rfl, met, last⟩, rfl⟩)
    · exact ⟨0, v, rfl, found, last.imp_left (fun none => by simp [none])⟩
    · exact ⟨depth + 1, v, rfl, met?_succ_eq_some_iff.2 ⟨child, found, met⟩,
        last.imp_left (congrArg Nat.succ)⟩

/-- A chain halts at its first name, at its second one, or at the node under the first name. -/
theorem halts_cons_iff : root.Halts (name :: rest) depth e ↔
    (root.get? name = none ∧ depth = 0 ∧ e = .missingProperty name 0) ∨
      (∃ v next more, root.get? name = some v ∧ v.Blocks ∧ rest = next :: more ∧ depth = 1 ∧
        e = .notTraversable next 1 v.kind) ∨
      ∃ child depth' e', root.child? name = some child ∧ child.Halts rest depth' e' ∧
        depth = depth' + 1 ∧ e = e'.deeper 1 := by
  constructor
  · intro h
    cases h with
    | @missing depth n name' reached next absent =>
      cases depth with
      | zero =>
        cases reached
        cases next
        exact .inl ⟨absent, rfl, rfl⟩
      | succ depth =>
        obtain ⟨child, found, reached⟩ := reach?_cons_eq_some_iff.1 reached
        exact .inr (.inr ⟨child, depth, _, found, .missing reached next absent, rfl, rfl⟩)
    | @blocked depth v name' met blocks next =>
      cases depth with
      | zero =>
        cases rest with
        | nil => cases next
        | cons next' more =>
          cases next
          exact .inr (.inl ⟨v, name', more, met, blocks, rfl, rfl, rfl⟩)
      | succ depth =>
        obtain ⟨child, found, met⟩ := met?_succ_eq_some_iff.1 met
        exact .inr (.inr ⟨child, depth + 1, _, found, .blocked depth met blocks next, rfl, rfl⟩)
  · rintro (⟨absent, rfl, rfl⟩ | ⟨v, next, more, found, blocks, rfl, rfl, rfl⟩ |
      ⟨child, depth', e', found, halts, rfl, rfl⟩)
    · exact .missing rfl rfl absent
    · exact .blocked 0 found blocks rfl
    · cases halts with
      | missing reached next absent =>
        exact .missing (reach?_cons_eq_some_iff.2 ⟨child, found, reached⟩) next absent
      | blocked depth met blocks next =>
        exact .blocked (depth + 1) (met?_succ_eq_some_iff.2 ⟨child, found, met⟩) blocks next

theorem ends_or_halts (root : Node R) (nonempty : chain ≠ []) :
    (∃ m, root.Ends chain m) ∨ ∃ depth e, root.Halts chain depth e := by
  induction chain generalizing root with
  | nil => exact absurd rfl nonempty
  | cons name rest ih =>
    simp only [ends_cons_iff, halts_cons_iff]
    cases found : root.get? name with
    | none => exact .inr ⟨0, _, .inl ⟨rfl, rfl, rfl⟩⟩
    | some v =>
      by_cases last : rest = []
      · exact .inl ⟨1, .inl ⟨v, rfl, rfl, .inl last⟩⟩
      -- What is left has a name, so only an annotated value ends the chain here.
      cases v with
      | annotated a => exact .inl ⟨1, .inl ⟨_, rfl, rfl, .inr ⟨a, rfl⟩⟩⟩
      | node child =>
        have here := child?_eq_some_iff.2 found
        rcases ih child last with ⟨m, ends⟩ | ⟨depth, e, halts⟩
        · exact .inl ⟨m + 1, .inr ⟨child, m, here, ends, rfl⟩⟩
        · exact .inr ⟨depth + 1, _, .inr (.inr ⟨child, depth, e, here, halts, rfl, rfl⟩)⟩
      | literal l =>
        obtain ⟨next, more, rfl⟩ := List.exists_cons_of_ne_nil last
        exact .inr ⟨1, _, .inr (.inl ⟨_, next, more, rfl, .literal l, rfl, rfl, rfl⟩)⟩
      | list items =>
        obtain ⟨next, more, rfl⟩ := List.exists_cons_of_ne_nil last
        exact .inr ⟨1, _, .inr (.inl ⟨_, next, more, rfl, .list items, rfl, rfl, rfl⟩)⟩

theorem Halts.depth_eq (h : root.Halts chain depth e) : e.depth = depth := by
  cases h <;> rfl

end

variable [Scalar R]

/-- The confidences of the values met at the first depths; one without counts fully. -/
def scoresMet (root : Node R) (chain : List String) (m : Nat) : List R :=
  (List.range m).map
    (fun depth => ((root.met? chain depth).bind PropertyValue.confidence).getD linkConfidence)

theorem scoresMet_succ {root : Node R} {name : String} {v : PropertyValue R}
    (found : root.get? name = some v) (rest : List String) (m : Nat) :
    root.scoresMet (name :: rest) (m + 1) = v.confidence.getD linkConfidence ::
      (List.range m).map (fun depth =>
        ((root.met? (name :: rest) (depth + 1)).bind PropertyValue.confidence).getD
          linkConfidence) := by
  simp only [scoresMet, List.range_succ_eq_map, List.map_cons, List.map_map, Function.comp_def,
    met?_zero, found, Option.bind_some]

theorem scoresMet_child {root child : Node R} {name : String}
    (found : root.child? name = some child) (rest : List String) (m : Nat) :
    root.scoresMet (name :: rest) (m + 1) =
      child.confidence.getD linkConfidence :: child.scoresMet rest m := by
  rw [scoresMet_succ (child?_eq_some_iff.1 found)]
  simp only [met?_succ, found, Option.bind_some]
  rfl

end Node

namespace Place
variable [Scalar R] {root child : Node R} {name : String} {rest chain : List String}

theorem walk_of_get?_eq_none (absent : root.get? name = none) (depth : Nat) :
    walk (.node root) depth (name :: rest) = .error (.walk (.missingProperty name depth)) := by
  simp only [walk, absent]

theorem walk_of_annotated {a : Assertion R} (found : root.get? name = some (.annotated a))
    (depth : Nat) : walk (.node root) depth (name :: rest) =
      .ok ⟨[a.confidence.getD linkConfidence], [name]⟩ := by
  simp only [walk, found]

theorem walk_of_child (found : root.child? name = some child) (depth : Nat) :
    walk (.node root) depth (name :: rest) = (walk (.node child) (depth + 1) rest).map
      (.cons (child.confidence.getD linkConfidence) name) := by
  simp only [walk, Node.child?_eq_some_iff.1 found]

theorem walk_of_blocks {v : PropertyValue R} (found : root.get? name = some v) (blocks : v.Blocks)
    (depth : Nat) : walk (.node root) depth (name :: rest) =
      (walk (.blocked v.kind) (depth + 1) rest).map (.cons linkConfidence name) := by
  cases blocks <;> simp only [walk, found]

/-- The last name of a walk counts with what it leads to, whatever that is. -/
theorem walk_singleton {v : PropertyValue R} (found : root.get? name = some v) (depth : Nat) :
    walk (.node root) depth [name] = .ok ⟨[v.confidence.getD linkConfidence], [name]⟩ := by
  cases v <;> simp only [walk, found] <;> rfl

/-- A walk along a chain that ends collects the confidences met up to the end. -/
theorem walk_of_ends {m : Nat} (h : root.Ends chain m) (depth : Nat) :
    walk (.node root) depth chain = .ok ⟨root.scoresMet chain m, chain.take m⟩ := by
  induction chain generalizing root m depth with
  | nil => exact absurd rfl h.ne_nil
  | cons name rest ih =>
    rcases Node.ends_cons_iff.1 h with ⟨v, found, rfl, last⟩ | ⟨child, m, found, ends, rfl⟩
    · rw [Node.scoresMet_succ found]
      rcases last with rfl | ⟨a, rfl⟩
      · exact walk_singleton found depth
      · exact walk_of_annotated found depth
    · rw [walk_of_child found, ih ends, Node.scoresMet_child found, List.take_succ_cons]
      rfl

/-- A walk along a chain that halts fails there, as deep as it started. -/
theorem walk_of_halts {halt : Nat} {e : WalkError} (h : root.Halts chain halt e) (depth : Nat) :
    walk (.node root) depth chain = .error (.walk (e.deeper depth)) := by
  induction chain generalizing root halt e depth with
  | nil => cases h with
    | missing _ next => cases next
    | blocked _ _ _ next => cases next
  | cons name rest ih =>
    rcases Node.halts_cons_iff.1 h with ⟨absent, -, rfl⟩ |
      ⟨v, next, more, found, blocks, rfl, -, rfl⟩ | ⟨child, halt', e', found, halts, -, rfl⟩
    · rw [walk_of_get?_eq_none absent, WalkError.deeper, Nat.zero_add]
    · rw [walk_of_blocks found blocks, walk, WalkError.deeper, Nat.add_comm 1]
      rfl
    · rw [walk_of_child found, ih halts, WalkError.deeper_deeper]
      rfl

end Place

namespace Node
variable [Scalar R] {root : Node R} {chain : List String}

/-- A chain ends in one way only, since a walk along it has one trail. -/
theorem Ends.isLeast {m : Nat} (h : root.Ends chain m) : IsLeast {m | root.Ends chain m} m := by
  refine ⟨h, fun m' h' => Nat.le_of_eq ?_⟩
  have same := (Place.walk_of_ends h 0).symm.trans (Place.walk_of_ends h' 0)
  have names : (chain.take m).length = (chain.take m').length :=
    congrArg List.length (congrArg Trail.names (Except.ok.inj same))
  rwa [List.length_take_of_le h.le_length, List.length_take_of_le h'.le_length] at names

theorem Halts.not_ends {depth : Nat} {e : WalkError} (h : root.Halts chain depth e) (m : Nat) :
    ¬ root.Ends chain m := by
  intro ends
  have both := (Place.walk_of_ends ends 0).symm.trans (Place.walk_of_halts h 0)
  cases both

theorem Halts.isLeast {depth : Nat} {e : WalkError} (h : root.Halts chain depth e) :
    IsLeast {depth | ∃ e, root.Halts chain depth e} depth := by
  refine ⟨⟨e, h⟩, ?_⟩
  rintro depth' ⟨e', h'⟩
  have same := (Place.walk_of_halts h 0).symm.trans (Place.walk_of_halts h' 0)
  rw [WalkError.deeper_zero, WalkError.deeper_zero] at same
  cases same
  exact Nat.le_of_eq (h.depth_eq.symm.trans h'.depth_eq)

end Node

section
variable [Scalar R] [Elementary R] {root : Node R} {chain : List String} {method : Propagation}

/-- What is collected on a walk propagates, if it does so by itself. -/
theorem propagateAlong_of_walk (nonempty : chain ≠ []) {trail : Trail R}
    (walked : Place.walk (.node root) 0 chain = .ok trail) : propagateAlong root chain method =
      (propagate trail.scores method).map (fun made => { made with trail := trail.names }) := by
  unfold propagateAlong
  rw [if_neg (by simpa using nonempty), walked]
  change (propagate trail.scores method >>= fun made => pure { made with trail := trail.names }) = _
  cases propagate trail.scores method <;> rfl

theorem propagateAlong_of_walk_error (nonempty : chain ≠ []) {e : WalkError}
    (failed : Place.walk (.node root) 0 chain = .error (.walk e)) :
    propagateAlong root chain method = .error (.walk e) := by
  unfold propagateAlong
  rw [if_neg (by simpa using nonempty), failed]
  rfl

/-- Where a walk starts counts with what it states, not with its own confidence. -/
theorem propagateAlong_withConfidence (c : Option R) :
    propagateAlong { root with confidence := c } chain method =
      propagateAlong root chain method := by
  cases chain <;> rfl

theorem propagateAlong_of_ends {m : Nat} (h : root.Ends chain m) :
    propagateAlong root chain method = (propagate (root.scoresMet chain m) method).map
      (fun made => { made with trail := chain.take m }) :=
  propagateAlong_of_walk h.ne_nil (Place.walk_of_ends h 0)

theorem propagateAlong_of_halts (nonempty : chain ≠ []) {depth : Nat} {e : WalkError}
    (h : root.Halts chain depth e) : propagateAlong root chain method = .error (.walk e) := by
  refine propagateAlong_of_walk_error nonempty ?_
  rw [Place.walk_of_halts h, WalkError.deeper_zero]

theorem propagateAlong_eq_ok_iff {m : Nat} (h : root.Ends chain m)
    {result : PropagationResult R} : propagateAlong root chain method = .ok result ↔
      ∃ made, propagate (root.scoresMet chain m) method = .ok made ∧
        ⟨made.score, method, root.scoresMet chain m, chain.take m⟩ = result := by
  rw [propagateAlong_of_ends h, map_eq_ok_iff]
  refine exists_congr (fun made => and_congr_right (fun propagated => ?_))
  obtain ⟨-, -, rfl⟩ := propagate_eq_ok_iff.1 propagated
  rfl

theorem exists_propagateAlong_iff {m : Nat} (h : root.Ends chain m) :
    (∃ result, propagateAlong root chain method = .ok result) ↔
      ∀ s ∈ root.scoresMet chain m, Scalar.InUnit s := by
  have some : root.scoresMet chain m ≠ [] := by
    obtain ⟨depth, v, rfl, -⟩ := h
    simp [Node.scoresMet]
  rw [propagateAlong_of_ends h, exists_map_iff, exists_propagate_iff]
  exact and_iff_right some

/-- A walk resolves a path. Let a chain end with its first `m` names. If the scores met on them are
scores they propagate as they do by themselves, with these names as the trail; if not, they are
refused. A chain that does not end fails at the first depth at which it cannot be followed, for the
reason met there. The confidence of the node from which a walk starts never counts. -/
theorem walk_resolves_path (root : Node R) {chain : List String} (nonempty : chain ≠ [])
    (method : Propagation) :
    (∀ m, IsLeast {m | root.Ends chain m} m →
      ((∀ s ∈ root.scoresMet chain m, Scalar.InUnit s) →
        ∃ made, propagate (root.scoresMet chain m) method = .ok made ∧
          propagateAlong root chain method =
            .ok ⟨made.score, method, root.scoresMet chain m, chain.take m⟩) ∧
      ((¬ ∀ s ∈ root.scoresMet chain m, Scalar.InUnit s) →
        ∃ fault, propagateAlong root chain method = .error (.validation fault))) ∧
      ((∀ m, ¬ root.Ends chain m) → ∃ depth e,
        IsLeast {depth | ∃ e, root.Halts chain depth e} depth ∧ root.Halts chain depth e ∧
          propagateAlong root chain method = .error (.walk e)) ∧
      ∀ c, propagateAlong { root with confidence := c } chain method =
        propagateAlong root chain method := by
  refine ⟨fun m least => ⟨fun units => ?_, fun wrong => ?_⟩, fun endless => ?_,
    propagateAlong_withConfidence⟩
  · obtain ⟨result, walked⟩ := (exists_propagateAlong_iff least.1).2 units
    obtain ⟨made, propagated, rfl⟩ := (propagateAlong_eq_ok_iff least.1).1 walked
    exact ⟨made, propagated, walked⟩
  · rw [propagateAlong_of_ends least.1]
    refine ((propagate_validates _ _).map _).exists_error (fun result made => wrong ?_)
    rw [← propagateAlong_of_ends least.1] at made
    exact (exists_propagateAlong_iff least.1).1 ⟨result, made⟩
  · obtain ⟨m, ends⟩ | ⟨depth, e, halts⟩ := root.ends_or_halts nonempty
    · exact absurd ends (endless m)
    · exact ⟨depth, e, halts.isLeast, halts, propagateAlong_of_halts nonempty halts⟩

end

def paper (R : Type) [Scalar R] : Node R :=
  let name : Assertion R := ⟨.text "Lab", some (Scalar.oneOver 5), none, none, none, []⟩
  let laboratory : Node R :=
    ⟨some "ex:lab", [], some (Scalar.oneOver 2), [("name", .annotated name)]⟩
  let author : Node R := ⟨some "ex:ada", [], none,
    [("affiliation", .node laboratory), ("born", .literal (.number (.whole 1815)))]⟩
  ⟨some "ex:paper", [], some (Scalar.oneOver 4), [("author", .node author)]⟩

/-- A walk stops at an annotated value, whatever names are left, and cannot go on from a number. -/
theorem walk_resolves_path_paper :
    (∃ made, propagate [linkConfidence, Scalar.oneOver 2, Scalar.oneOver 5] .min = .ok made ∧
      propagateAlong (paper Float) ["author", "affiliation", "name", "language"] .min =
        .ok ⟨made.score, .min, [linkConfidence, Scalar.oneOver 2, Scalar.oneOver 5],
          ["author", "affiliation", "name"]⟩) ∧
      ∃ depth e, (paper Float).Halts ["author", "born", "era"] depth e ∧
        propagateAlong (paper Float) ["author", "born", "era"] .multiply = .error (.walk e) := by
  constructor
  · have ends : (paper Float).Ends ["author", "affiliation", "name", "language"] 3 :=
      ⟨2, _, rfl, rfl, .inr ⟨_, rfl⟩⟩
    obtain ⟨resolved, -, -⟩ := walk_resolves_path (paper Float) (List.cons_ne_nil "author" _) .min
    refine (resolved 3 ends.isLeast).1 ?_
    show ∀ s ∈ [linkConfidence, Scalar.oneOver 2, Scalar.oneOver 5], Scalar.InUnit s
    decide +kernel
  · have halts :
        (paper Float).Halts ["author", "born", "era"] 2 (.notTraversable "era" 2 "literal") :=
      .blocked 1 rfl (.literal _) rfl
    obtain ⟨-, failed, -⟩ :=
      walk_resolves_path (paper Float) (List.cons_ne_nil "author" _) .multiply
    obtain ⟨depth, e, -, halts, result⟩ := failed halts.not_ends
    exact ⟨depth, e, halts, result⟩

end Credence
