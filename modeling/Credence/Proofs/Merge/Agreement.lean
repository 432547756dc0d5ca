import Credence.Proofs.Merge.Run
import Credence.Proofs.Resolution
import Credence.Proofs.Scalar.Leader

/-! # The value kept where sources agree

The value kept is one of the values given, the first that no other outranks. Writing it down
again changes at most the confidence stated at its top, and so does winning a contest.
-/

namespace Credence
variable {R : Type}

/-- A value written in place of another one of which at most the confidence stated at its top is
changed. A literal may have become an assertion of which nothing else is known. -/
inductive Restated : PropertyValue R → PropertyValue R → Prop
  | verbatim (v : PropertyValue R) : Restated v v
  | assertion (a : Assertion R) (c : R) :
      Restated (.annotated a) (.annotated { a with confidence := some c })
  | literal (l : Literal R) (c : R) :
      Restated (.literal l) (.annotated { Assertion.ofLiteral l with confidence := some c })
  | node (n : Node R) (c : R) : Restated (.node n) (.node { n with confidence := some c })

theorem Restated.bare_eq {v w : PropertyValue R} (h : Restated v w) : w.bare = v.bare := by
  cases h with
  | verbatim | assertion a c | literal l c => rfl
  | node n c =>
    rcases n with ⟨id, types, confidence, properties⟩
    rfl

namespace PropertyValue

def stated (values : List (PropertyValue R)) : List R := values.filterMap confidence

theorem filterMap_id_map_confidence (values : List (PropertyValue R)) :
    (values.map confidence).filterMap id = stated values := by
  rw [List.filterMap_map]
  rfl

theorem stated_append (values more : List (PropertyValue R)) :
    stated (values ++ more) = stated values ++ stated more := List.filterMap_append

theorem head?_stated_toList (o : Option (PropertyValue R)) :
    (stated o.toList).head? = o.bind confidence := by
  rw [stated, List.head?_filterMap]
  cases o with
  | none => rfl
  | some v => simp

variable [Scalar R]

/-- A value held with another confidence is restated, and unless it is a list it states it. -/
theorem withConfidence_eq_ok {v w : PropertyValue R} {c : R} (h : v.withConfidence c = .ok w) :
    Restated v w ∧ ((∃ items, v = .list items) ∨ w.confidence = some c) := by
  cases v with
  | literal l =>
    rcases map_eq_ok_iff.1 h with ⟨a, ha, rfl⟩
    rcases bind_eq_ok_iff.1 ha with ⟨-, -, ha⟩
    cases ha
    exact ⟨.literal l c, .inr rfl⟩
  | annotated a =>
    rcases map_eq_ok_iff.1 h with ⟨b, hb, rfl⟩
    rcases bind_eq_ok_iff.1 hb with ⟨-, -, hb⟩
    cases hb
    exact ⟨.assertion a c, .inr rfl⟩
  | node n =>
    cases h
    exact ⟨.node n c, .inr rfl⟩
  | list items =>
    cases h
    exact ⟨.verbatim _, .inl ⟨items, rfl⟩⟩

theorem exists_withConfidence (v : PropertyValue R) {c : R} (unit : Scalar.InUnit c) :
    ∃ w, v.withConfidence c = .ok w := by
  cases v with
  | literal l =>
    have held := (Assertion.ofLiteral l).withConfidence_eq_ok unit
    exact ⟨_, map_eq_ok_iff.2 ⟨_, held, rfl⟩⟩
  | annotated a => exact ⟨_, map_eq_ok_iff.2 ⟨_, a.withConfidence_eq_ok unit, rfl⟩⟩
  | node n => exact ⟨_, rfl⟩
  | list items => exact ⟨_, rfl⟩

variable [NumberText R]

theorem outranks_eq_true_iff {v w : PropertyValue R} : v.outranks w = true ↔
    Scalar.rank v.standing w.standing = .gt ∨
      Scalar.rank v.standing w.standing = .eq ∧ v.text < w.text := by
  unfold outranks
  cases Scalar.rank v.standing w.standing with
  | lt => simp
  | eq => simp only [decide_eq_true_iff, true_and, reduceCtorEq, false_or]
  | gt => simp

theorem outranks_eq_false_iff {v w : PropertyValue R} : v.outranks w = false ↔
    Scalar.rank v.standing w.standing = .lt ∨
      Scalar.rank v.standing w.standing = .eq ∧ w.text ≤ v.text := by
  unfold outranks
  cases Scalar.rank v.standing w.standing with
  | lt => simp
  | eq => simp only [decide_eq_false_iff_not, String.not_lt, true_and, reduceCtorEq, false_or]
  | gt => simp

/-- Confidence before text: where confidences rank in a total order, values do too. -/
theorem outranks_strictWeak [Std.TransCmp (Scalar.rank (R := R))] :
    StrictWeak (outranks (R := R)) where
  asymm {v w} h := by
    rw [outranks_eq_true_iff] at h
    rw [outranks_eq_false_iff]
    rcases h with h | ⟨h, before⟩
    · exact .inl (Std.OrientedCmp.lt_of_gt h)
    · exact .inr ⟨Std.OrientedCmp.eq_symm h, Std.le_of_lt before⟩
  weak {u v w} huv hvw := by
    rw [outranks_eq_false_iff] at huv hvw ⊢
    rcases huv with huv | ⟨huv, le⟩
    · rcases hvw with hvw | ⟨hvw, -⟩
      · exact .inl (Std.TransCmp.lt_trans huv hvw)
      · exact .inl (Std.TransCmp.lt_of_lt_of_eq huv hvw)
    · rcases hvw with hvw | ⟨hvw, le'⟩
      · exact .inl (Std.TransCmp.lt_of_eq_of_lt huv hvw)
      · exact .inr ⟨Std.TransCmp.eq_trans huv hvw, String.le_trans le' le⟩

theorem restated_asWinner (v : PropertyValue R) {winner : Assertion R}
    (h : winner = v.candidate ∨ ∃ c, winner = { v.candidate with confidence := some c }) :
    Restated v (v.asWinner winner) := by
  cases v with
  | literal l =>
    rcases h with rfl | ⟨c, rfl⟩
    · exact .literal l _
    · exact .literal l c
  | annotated a =>
    rcases h with rfl | ⟨c, rfl⟩
    · exact .verbatim _
    · exact .assertion a c
  | node n => exact .verbatim _
  | list items => exact .verbatim _

end PropertyValue

variable [Scalar R]

namespace Merge
open PropertyValue

theorem combinedConfidence_of_few {confidences : List (Option R)} (method : Combination)
    (few : (confidences.filterMap id).length < 2) :
    combinedConfidence confidences method = .ok none := if_pos few

theorem combinedConfidence_of_enough {confidences : List (Option R)} (method : Combination)
    (enough : 2 ≤ (confidences.filterMap id).length) :
    combinedConfidence confidences method =
      (combine (confidences.filterMap id) method).map (fun result => some result.score) :=
  if_neg (Nat.not_lt.2 enough)

variable [NumberText R]

/-- The value that agreeing sources leave: the leader as it is, where fewer than two of them state
a confidence, and with the combination of all that are stated otherwise. -/
theorem agree_eq_ok_iff {first : PropertyValue R} {rest : List (PropertyValue R)}
    {method : Combination} {w : PropertyValue R} :
    agree first rest method = .ok w ↔
      (stated (first :: rest)).length < 2 ∧ w = leader outranks first rest ∨
      2 ≤ (stated (first :: rest)).length ∧
        ∃ result, combine (stated (first :: rest)) method = .ok result ∧
          (leader outranks first rest).withConfidence result.score = .ok w := by
  unfold agree
  rw [bind_eq_ok_iff, ← filterMap_id_map_confidence]
  by_cases few : (((first :: rest).map confidence).filterMap id).length < 2
  · rw [combinedConfidence_of_few method few]
    have few' := Nat.not_le.2 few
    constructor
    · rintro ⟨combined, hc, h⟩
      cases hc
      cases h
      exact .inl ⟨few, rfl⟩
    · rintro (⟨-, rfl⟩ | ⟨enough, -⟩)
      · exact ⟨none, rfl, rfl⟩
      · exact absurd enough few'
  · have enough := Nat.not_lt.1 few
    rw [combinedConfidence_of_enough method enough]
    constructor
    · rintro ⟨combined, hc, h⟩
      rcases map_eq_ok_iff.1 hc with ⟨result, hr, rfl⟩
      exact .inr ⟨enough, result, hr, validated_eq_ok_iff.1 h⟩
    · rintro (⟨few', -⟩ | ⟨-, result, hr, hw⟩)
      · exact absurd few' few
      · exact ⟨some result.score, map_eq_ok_iff.2 ⟨result, hr, rfl⟩, validated_eq_ok_iff.2 hw⟩

theorem reconcile_eq_ok_of_agree {options : MergeOptions} {id p : String}
    {first : PropertyValue R} {rest : List (PropertyValue R)}
    (same : ∀ v ∈ rest, v.agrees first = true) {o : Outcome R} :
    reconcile options id p first rest = .ok o ↔
      ∃ w, agree first rest options.combination = .ok w ∧ o = .agreed w := by
  unfold reconcile
  rw [if_pos (List.all_eq_true.2 same), map_eq_ok_iff]
  simp only [eq_comm]

theorem reconcile_eq_ok_of_not_agree {options : MergeOptions} {id p : String}
    {first : PropertyValue R} {rest : List (PropertyValue R)}
    (differ : ¬ ∀ v ∈ rest, v.agrees first = true) {o : Outcome R} :
    reconcile options id p first rest = .ok o ↔
      ∃ c, settle id p (first :: rest) options.strategy = .ok c ∧ o = .contested c := by
  unfold reconcile
  rw [if_neg (fun all => differ (List.all_eq_true.1 all)), map_eq_ok_iff]
  simp only [eq_comm]

end Merge
end Credence
