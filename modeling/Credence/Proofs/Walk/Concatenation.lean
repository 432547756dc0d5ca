import Credence.Proofs.Scalar.Real
import Credence.Proofs.Walk.Path

/-! # Walks one after the other

Where the names of one chain lead to a node, what two chains meet is what the first one meets and
then what the second one meets from this node. So a walk along both collects what the two collect,
and halts as the second one halts, only deeper. A walk that has ended at an annotated value takes no
notice of further names.
-/

namespace Credence
variable {R : Type}

namespace Node
variable {root n : Node R} {first : List String}

theorem ends_of_reach (reached : root.reach? first = some n) (nonempty : first ≠ []) :
    root.Ends first first.length := by
  induction first generalizing root with
  | nil => exact absurd rfl nonempty
  | cons name rest ih =>
    obtain ⟨child, found, reached⟩ := reach?_cons_eq_some_iff.1 reached
    rw [ends_cons_iff]
    by_cases last : rest = []
    · subst last
      exact .inl ⟨.node child, child?_eq_some_iff.1 found, rfl, .inl rfl⟩
    · exact .inr ⟨child, rest.length, found, ih reached last, rfl⟩

theorem reach?_append (reached : root.reach? first = some n) (names : List String) :
    root.reach? (first ++ names) = n.reach? names := by
  induction first generalizing root with
  | nil =>
    cases reached
    rfl
  | cons name rest ih =>
    obtain ⟨child, found, reached⟩ := reach?_cons_eq_some_iff.1 reached
    rw [List.cons_append, reach?, found]
    exact ih reached

theorem met?_append_left (root : Node R) {depth : Nat} (within : depth < first.length)
    (second : List String) : root.met? (first ++ second) depth = root.met? first depth := by
  rw [met?, met?, List.take_append_of_le_length (Nat.le_of_lt within),
    List.getElem?_append_left within]

/-- What is met beyond a chain that leads to a node is met from this node. -/
theorem met?_append_right (reached : root.reach? first = some n) (second : List String)
    (depth : Nat) : root.met? (first ++ second) (first.length + depth) = n.met? second depth := by
  rw [met?, met?, List.take_length_add_append, reach?_append reached,
    List.getElem?_append_right (Nat.le_add_right _ _), Nat.add_sub_cancel_left]

theorem Ends.append_right {second : List String} {m : Nat} (h : n.Ends second m)
    (reached : root.reach? first = some n) :
    root.Ends (first ++ second) (first.length + m) := by
  obtain ⟨depth, v, rfl, met, last⟩ := h
  refine ⟨first.length + depth, v, rfl, (met?_append_right reached _ _).trans met, ?_⟩
  exact last.imp_left (fun all => by rw [all, List.length_append])

theorem Halts.append_right {second : List String} {depth : Nat} {e : WalkError}
    (h : n.Halts second depth e) (reached : root.reach? first = some n) :
    root.Halts (first ++ second) (first.length + depth) (e.deeper first.length) := by
  have next (depth : Nat) : (first ++ second)[first.length + depth]? = second[depth]? := by
    rw [List.getElem?_append_right (Nat.le_add_right _ _), Nat.add_sub_cancel_left]
  cases h with
  | @missing depth holder name here found absent =>
    rw [WalkError.deeper, Nat.add_comm depth]
    refine .missing ?_ ((next depth).trans found) absent
    rwa [List.take_length_add_append, reach?_append reached]
  | @blocked depth v name met blocks found =>
    rw [WalkError.deeper, Nat.add_comm _ first.length]
    exact .blocked _ ((met?_append_right reached _ _).trans met) blocks ((next _).trans found)

theorem ends_of_annotated {depth : Nat} {a : Assertion R}
    (met : root.met? first depth = some (.annotated a)) (second : List String) :
    root.Ends (first ++ second) (depth + 1) :=
  ⟨depth, _, rfl, (met?_append_left root (lt_length_of_met? met) second).trans met, .inr ⟨a, rfl⟩⟩

variable [Scalar R]

theorem scoresMet_append_left (root : Node R) {m : Nat} (within : m ≤ first.length)
    (second : List String) : root.scoresMet (first ++ second) m = root.scoresMet first m := by
  refine List.map_congr_left (fun depth hd => ?_)
  rw [met?_append_left root (Nat.lt_of_lt_of_le (List.mem_range.1 hd) within)]

theorem scoresMet_append_right (reached : root.reach? first = some n) (second : List String)
    (m : Nat) : root.scoresMet (first ++ second) (first.length + m) =
      root.scoresMet first first.length ++ n.scoresMet second m := by
  rw [← scoresMet_append_left root le_rfl second, scoresMet, List.range_add, List.map_append,
    List.map_map]
  congr 1
  refine List.map_congr_left (fun depth _ => ?_)
  rw [Function.comp_apply, met?_append_right reached]

end Node

section
variable [Scalar R] [Elementary R]

/-- How a walk from a root goes on from the node to which a first chain leads. It succeeds where the
confidences met on the first chain are scores and the walk along the second one succeeds, collects
what both collect, and fails as the second one fails, only deeper. -/
structure Continues (root n : Node R) (first second : List String) (method : Propagation) :
    Prop where
  succeeds : (∃ result, propagateAlong root (first ++ second) method = .ok result) ↔
    (∀ s ∈ root.scoresMet first first.length, Scalar.InUnit s) ∧
      ∃ later, propagateAlong n second method = .ok later
  collects : ∀ result, propagateAlong root (first ++ second) method = .ok result →
    ∃ earlier later, propagateAlong root first method = .ok earlier ∧
      propagateAlong n second method = .ok later ∧
      earlier.inputScores = root.scoresMet first first.length ∧
      result.inputScores = earlier.inputScores ++ later.inputScores ∧
      result.trail = first ++ later.trail
  fails : ∀ e, propagateAlong n second method = .error (.walk e) →
    propagateAlong root (first ++ second) method = .error (.walk (e.deeper first.length))

variable {root n : Node R} {first second : List String}

theorem continues_of_ends (reached : root.reach? first = some n) (someFirst : first ≠ [])
    {m : Nat} (ends : n.Ends second m) (method : Propagation) :
    Continues root n first second method := by
  have both := ends.append_right reached
  have parts := Node.scoresMet_append_right reached second m
  have succeeds : (∃ result, propagateAlong root (first ++ second) method = .ok result) ↔
      (∀ s ∈ root.scoresMet first first.length, Scalar.InUnit s) ∧
        ∃ later, propagateAlong n second method = .ok later := by
    rw [exists_propagateAlong_iff both, exists_propagateAlong_iff ends, parts,
      List.forall_mem_append]
  refine ⟨succeeds, fun result walked => ?_, fun e failed => ?_⟩
  · obtain ⟨units, later, laterWalked⟩ := succeeds.1 ⟨result, walked⟩
    have ended := Node.ends_of_reach reached someFirst
    obtain ⟨earlier, earlierWalked⟩ : ∃ earlier, propagateAlong root first method = .ok earlier :=
      (exists_propagateAlong_iff ended).2 units
    refine ⟨earlier, later, earlierWalked, laterWalked, ?_⟩
    obtain ⟨_, -, rfl⟩ := (propagateAlong_eq_ok_iff both).1 walked
    obtain ⟨_, -, rfl⟩ := (propagateAlong_eq_ok_iff ended).1 earlierWalked
    obtain ⟨_, -, rfl⟩ := (propagateAlong_eq_ok_iff ends).1 laterWalked
    exact ⟨rfl, parts, List.take_length_add_append _⟩
  · -- Scores are refused for their values, not for where they are met.
    rw [propagateAlong_of_ends ends] at failed
    obtain ⟨fault, impossible⟩ := (propagate_validates _ _).map _ _ failed
    cases impossible

theorem continues_of_halts (reached : root.reach? first = some n) (someSecond : second ≠ [])
    {depth : Nat} {e : WalkError} (halts : n.Halts second depth e) (method : Propagation) :
    Continues root n first second method := by
  have later : propagateAlong n second method = .error (.walk e) :=
    propagateAlong_of_halts someSecond halts
  have both : propagateAlong root (first ++ second) method =
      .error (.walk (e.deeper first.length)) :=
    propagateAlong_of_halts (List.append_ne_nil_of_right_ne_nil _ someSecond)
      (halts.append_right reached)
  refine ⟨?_, fun result walked => ?_, fun e' failed => ?_⟩
  · simp [later, both]
  · rw [both] at walked
    cases walked
  · rw [later] at failed
    cases failed
    exact both

theorem continues (reached : root.reach? first = some n) (someFirst : first ≠ [])
    (someSecond : second ≠ []) (method : Propagation) : Continues root n first second method := by
  obtain ⟨m, ends⟩ | ⟨depth, e, halts⟩ := n.ends_or_halts someSecond
  · exact continues_of_ends reached someFirst ends method
  · exact continues_of_halts reached someSecond halts method

theorem propagateAlong_append_of_annotated {depth : Nat} {a : Assertion R}
    (met : root.met? first depth = some (.annotated a)) (second : List String)
    (method : Propagation) :
    propagateAlong root (first ++ second) method = propagateAlong root first method := by
  have within : depth + 1 ≤ first.length := Node.lt_length_of_met? met
  have ends : root.Ends first (depth + 1) := ⟨depth, _, rfl, met, .inr ⟨a, rfl⟩⟩
  rw [propagateAlong_of_ends ends, propagateAlong_of_ends (Node.ends_of_annotated met second),
    Node.scoresMet_append_left root within, List.take_append_of_le_length within]

end

section
variable {K : Type} [Field K] [LinearOrder K] [IsStrictOrderedRing K] [Elementary K]

/-- The score of a product along a walk is the product of what is collected. -/
theorem score_of_multiplyAlong {root : Node K} {chain : List String} {result : PropagationResult K}
    (walked : propagateAlong root chain .multiply = .ok result) :
    result.score = result.inputScores.prod := by
  have nonempty : chain ≠ [] := by
    rintro rfl
    cases walked
  obtain ⟨m, ends⟩ | ⟨depth, e, halts⟩ := root.ends_or_halts nonempty
  · obtain ⟨made, propagated, rfl⟩ := (propagateAlong_eq_ok_iff ends).1 walked
    exact (score_of_multiply propagated :)
  · rw [propagateAlong_of_halts nonempty halts] at walked
    cases walked

end

/-- Walks compose. Where a first chain leads to a node, a walk goes on from this node along a second
chain, and with exact scalars its product is that of the two walks. Where the first chain ends at an
annotated value, the second one changes nothing. -/
theorem walks_compose [Scalar R] [Elementary R]
    {K : Type} [Field K] [LinearOrder K] [IsStrictOrderedRing K] [Elementary K]
    {first second : List String} (someFirst : first ≠ []) (someSecond : second ≠ []) :
    (∀ (root n : Node R) (method : Propagation), root.reach? first = some n →
      Continues root n first second method) ∧
    (∀ (root n : Node K), root.reach? first = some n →
      ∀ result, propagateAlong root (first ++ second) .multiply = .ok result →
        ∃ earlier later, propagateAlong root first .multiply = .ok earlier ∧
          propagateAlong n second .multiply = .ok later ∧
          result.score = earlier.score * later.score) ∧
    ∀ (root : Node R) (method : Propagation) (depth : Nat) (a : Assertion R),
      root.met? first depth = some (.annotated a) →
        propagateAlong root (first ++ second) method = propagateAlong root first method := by
  refine ⟨fun root n method reached => continues reached someFirst someSecond method,
    fun root n reached result walked => ?_,
    fun root method depth a met => propagateAlong_append_of_annotated met second method⟩
  obtain ⟨earlier, later, before, after, -, scores, -⟩ :=
    (continues reached someFirst someSecond .multiply).collects result walked
  refine ⟨earlier, later, before, after, ?_⟩
  rw [score_of_multiplyAlong walked, score_of_multiplyAlong before, score_of_multiplyAlong after,
    scores, List.prod_append]

/-- From a paper to its author, from there to the name of a laboratory, and no further. -/
theorem walks_compose_paper :
    (∃ author, (paper Float).reach? ["author"] = some author ∧
      Continues (paper Float) author ["author"] ["affiliation", "name"] .dampened) ∧
    (∃ author result earlier later, (paper ℝ).reach? ["author"] = some author ∧
      propagateAlong (paper ℝ) ["author", "affiliation", "name"] .multiply = .ok result ∧
      propagateAlong (paper ℝ) ["author"] .multiply = .ok earlier ∧
      propagateAlong author ["affiliation", "name"] .multiply = .ok later ∧
      result.score = earlier.score * later.score) ∧
    propagateAlong (paper Float) ["author", "affiliation", "name", "language"] .min =
      propagateAlong (paper Float) ["author", "affiliation", "name"] .min := by
  have someFirst : ["author"] ≠ [] := List.cons_ne_nil _ _
  have someSecond : ["affiliation", "name"] ≠ [] := List.cons_ne_nil _ _
  obtain ⟨composes, multiplies, -⟩ := walks_compose (R := Float) (K := ℝ) someFirst someSecond
  obtain ⟨-, -, stops⟩ := walks_compose (R := Float) (K := ℝ)
    (List.cons_ne_nil "author" ["affiliation", "name"]) (List.cons_ne_nil "language" [])
  have ends : (paper ℝ).Ends ["author", "affiliation", "name"] 3 :=
    ⟨2, _, rfl, rfl, .inr ⟨_, rfl⟩⟩
  have units : ∀ s ∈ [linkConfidence, Scalar.oneOver 2, Scalar.oneOver 5],
      Scalar.InUnit (s : ℝ) := by
    simp only [List.forall_mem_cons, Scalar.inUnit_iff, linkConfidence, Scalar.oneOver]
    norm_num
  obtain ⟨result, walked⟩ : ∃ result,
      propagateAlong (paper ℝ) ["author", "affiliation", "name"] .multiply = .ok result :=
    (exists_propagateAlong_iff ends).2 units
  obtain ⟨earlier, later, before, after, product⟩ := multiplies _ _ rfl result walked
  exact ⟨⟨_, rfl, composes _ _ _ rfl⟩,
    ⟨_, result, earlier, later, rfl, walked, before, after, product⟩, stops _ .min 2 _ rfl⟩

end Credence
