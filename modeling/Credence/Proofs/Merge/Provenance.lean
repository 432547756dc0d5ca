import Credence.Proofs.Merge.Agreement
import Credence.Proofs.Scalar.Rank

/-! # Where a merged value comes from

Every value of a merged graph is one value of one source, with at most the confidence at its top
changed, or under a union the list of all values given. So origin, time, method, further keywords
and nested contents are never put together from several sources.
-/

namespace Credence.Merge
open PropertyValue
variable {R : Type} [Scalar R] [NumberText R]

/-- Stands above all of some values: none is held with more confidence, and among those held with
as much none has a lesser text. -/
structure Prevails (v : PropertyValue R) (values : List (PropertyValue R)) : Prop where
  mem : v ∈ values
  surest : ∀ u ∈ values, Scalar.rank u.standing v.standing ≠ .gt
  least_text : ∀ u ∈ values, Scalar.rank u.standing v.standing = .eq → v.text ≤ u.text

/-- How a written value comes from the values that the sources give. -/
structure Written (options : MergeOptions) (first : PropertyValue R)
    (rest : List (PropertyValue R)) (w : PropertyValue R) : Prop where
  single : rest = [] → w = first
  agreed : (∀ v ∈ rest, v.agrees first = true) →
    ∃ v, Prevails v (first :: rest) ∧ Restated v w
  union : (¬ ∀ v ∈ rest, v.agrees first = true) → options.strategy = .union →
    w = .list (first :: rest)
  contest : (¬ ∀ v ∈ rest, v.agrees first = true) → ∀ s, options.strategy = .contest s →
    ∃ r v, resolve ((first :: rest).map candidate) s = .ok r ∧
      (first :: rest)[r.winnerIndex]? = some v ∧ Restated v w

theorem leader_prevails [Std.TransCmp (Scalar.rank (R := R))] (first : PropertyValue R)
    (rest : List (PropertyValue R)) : Prevails (leader outranks first rest) (first :: rest) := by
  have unbeaten (u : PropertyValue R) (hu : u ∈ first :: rest) :
      u.outranks (leader outranks first rest) = false :=
    outranks_strictWeak.not_beats_leader hu
  constructor
  case mem => exact leader_mem _ _ _
  case surest =>
    intro u hu above
    rcases outranks_eq_false_iff.1 (unbeaten u hu) with below | ⟨level, -⟩
    · simp [above] at below
    · simp [above] at level
  case least_text =>
    intro u hu level
    rcases outranks_eq_false_iff.1 (unbeaten u hu) with below | ⟨-, le⟩
    · simp [level] at below
    · exact le

theorem restated_leader {first : PropertyValue R} {rest : List (PropertyValue R)}
    {method : Combination} {w : PropertyValue R} (h : agree first rest method = .ok w) :
    Restated (leader outranks first rest) w := by
  rcases agree_eq_ok_iff.1 h with ⟨-, rfl⟩ | ⟨-, result, -, hw⟩
  · exact .verbatim _
  · exact (withConfidence_eq_ok hw).1

theorem agree_single {v w : PropertyValue R} {method : Combination}
    (h : agree v [] method = .ok w) : w = v := by
  have few : (stated [v]).length < 2 := by
    have := List.length_filterMap_le confidence [v]
    exact Nat.lt_succ_of_le this
  rcases agree_eq_ok_iff.1 h with ⟨-, hw⟩ | ⟨enough, -⟩
  · exact hw
  · exact absurd enough (Nat.not_le.2 few)

/-- A contest writes the value at the winner's position, as the winner is held. -/
theorem exists_of_settle_contest {id p : String} {values : List (PropertyValue R)} {s : Strategy}
    {c : Conflict R} (h : settle id p values (.contest s) = .ok c) :
    ∃ r v, resolve (values.map candidate) s = .ok r ∧ values[r.winnerIndex]? = some v ∧
      c.winner = v.asWinner r.winner := by
  rcases bind_eq_ok_iff.1 h with ⟨r, hr, h⟩
  cases h
  rcases resolve_elects hr with ⟨a, found, -⟩
  rw [List.getElem?_map, Option.map_eq_some_iff] at found
  rcases found with ⟨v, hv, -⟩
  refine ⟨r, v, hr, hv, ?_⟩
  rw [hv]

theorem settle_contest {id p : String} {values : List (PropertyValue R)} {s : Strategy}
    {c : Conflict R} (h : settle id p values (.contest s) = .ok c) :
    ∃ r v, resolve (values.map candidate) s = .ok r ∧ values[r.winnerIndex]? = some v ∧
      Restated v c.winner := by
  rcases exists_of_settle_contest h with ⟨r, v, hr, hv, winner⟩
  rcases resolve_elects hr with ⟨a, found, elected⟩
  rw [List.getElem?_map, hv] at found
  cases found
  exact ⟨r, v, hr, hv, winner ▸ restated_asWinner v elected⟩

theorem reconcile_written [Std.TransCmp (Scalar.rank (R := R))] {options : MergeOptions}
    {id p : String} {first : PropertyValue R} {rest : List (PropertyValue R)} {o : Outcome R}
    (h : reconcile options id p first rest = .ok o) : Written options first rest o.value := by
  by_cases same : ∀ v ∈ rest, v.agrees first = true
  · rcases (reconcile_eq_ok_of_agree same).1 h with ⟨w, hw, rfl⟩
    constructor
    case single =>
      rintro rfl
      exact agree_single hw
    case agreed =>
      intro _
      exact ⟨_, leader_prevails first rest, restated_leader hw⟩
    case union =>
      intro differ
      exact absurd same differ
    case contest =>
      intro differ
      exact absurd same differ
  · rcases (reconcile_eq_ok_of_not_agree same).1 h with ⟨c, hc, rfl⟩
    constructor
    case single =>
      rintro rfl
      exact absurd (fun v hv => absurd hv List.not_mem_nil) same
    case agreed =>
      intro agreed
      exact absurd agreed same
    case union =>
      intro _ hs
      rw [hs] at hc
      cases hc
      rfl
    case contest =>
      intro _ s hs
      rw [hs] at hc
      exact settle_contest hc

/-- Whatever a merged graph holds under an identifier and a property comes from the values that
the sources give them as `Written` says. -/
theorem merged_value_written [Std.TransCmp (Scalar.rank (R := R))] {graphs : List (Graph R)}
    {options : MergeOptions} {m : Graph R} {report : MergeReport R}
    (h : Graph.merge graphs options = .ok (m, report)) {id p : String}
    {first : PropertyValue R} {rest : List (PropertyValue R)}
    (values : valuesOf (membersOf (graphs.flatMap Graph.nodes) id) p = first :: rest) :
    ∃ n w, m.node? id = some n ∧ n.get? p = some w ∧ Written options first rest w := by
  rcases exists_becomes h values with ⟨n, o, hn, ho, reconciled⟩
  exact ⟨n, o.value, hn, ho, reconcile_written reconciled⟩

def witnesses : List (Graph Float) :=
  let lab (confidence : Option Float) : PropertyValue Float :=
    .node ⟨some "ex:lab", [], confidence, [("name", .literal (.text "Lab"))]⟩
  let year (number : Number Float) (source : String) : PropertyValue Float :=
    .annotated ⟨.number number, some 0.9, some source, none, none, []⟩
  [.single ⟨some "ex:ada", [], none,
      [("born", year (.whole 1815) "s2"), ("employer", lab (some 0.25))]⟩,
    .single ⟨some "ex:ada", [], none,
      [("born", year (.scalar 1815) "s1"), ("employer", .literal (.text "Lab"))]⟩,
    .single ⟨some "ex:ada", [], none,
      [("born", .literal (.number (.whole 1815))), ("employer", lab none)]⟩]

theorem merged_value_written_witnesses :
    ∃ m report, Graph.merge witnesses ⟨.contest .weightedVote, .noisyOr⟩ = .ok (m, report) ∧
      ∀ p ∈ ["born", "employer"], ∃ first rest n w,
        valuesOf (membersOf (witnesses.flatMap Graph.nodes) "ex:ada") p = first :: rest ∧
          m.node? "ex:ada" = some n ∧ n.get? p = some w ∧
            Written ⟨.contest .weightedVote, .noisyOr⟩ first rest w := by
  obtain ⟨⟨m, report⟩, run⟩ := exists_eq_ok_of_isOk
    (show (Graph.merge witnesses ⟨.contest .weightedVote, .noisyOr⟩).isOk = true by
      decide +kernel)
  refine ⟨m, report, run, fun p hp => ?_⟩
  obtain ⟨first, rest, values⟩ : ∃ first rest,
      valuesOf (membersOf (witnesses.flatMap Graph.nodes) "ex:ada") p = first :: rest := by
    rcases List.mem_cons.1 hp with rfl | hp
    · exact ⟨_, _, rfl⟩
    · rcases List.mem_cons.1 hp with rfl | hp
      · exact ⟨_, _, rfl⟩
      · cases hp
  rcases merged_value_written run values with ⟨n, w, hn, hw, written⟩
  exact ⟨first, rest, n, w, values, hn, hw, written⟩

end Credence.Merge
