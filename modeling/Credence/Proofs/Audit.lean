import Credence.Proofs.Assertion.Forms
import Credence.Proofs.Merge.Record
import Credence.Proofs.Score.Binary64
import Credence.Score.Record

/-! # Records of what was done

What is told about a comparison, a merge or a contest is kept as a record. For graphs and assertions
that are read from documents each of them is read back from its record without any change, as far
as a document has whole numbers for what is counted.
-/

namespace Credence
variable {R : Type} [Scalar R]

theorem Strategy.find?_name (s : Strategy) : Named.find? (Named.name s) = some s := by
  cases s <;> rfl

namespace Resolution

theorem read_toRecord_iff {r : Resolution R}
    (winner : Assertion.read r.winner.toRecord = .ok r.winner)
    (candidates : ∀ a ∈ r.candidates, Assertion.read a.toRecord = .ok a) :
    read r.toRecord = .ok r ↔ Record.IsWord r.winnerIndex := by
  let pairs : List (String × Json R) := [("winner", r.winner.toRecord),
    ("winnerIndex", .ofNat r.winnerIndex),
    ("candidates", .array (r.candidates.map Assertion.toRecord)),
    ("strategy", Named.toJson r.strategy), ("reason", .text r.reason)]
  have distinct : (pairs.map Prod.fst).Nodup := by simp [pairs]
  have index : Record.required (Fields.ofList pairs) "winnerIndex" Record.readCount =
      .ok r.winnerIndex ↔ Record.IsWord r.winnerIndex := by
    have listed : ("winnerIndex", Json.ofNat r.winnerIndex) ∈ pairs := by simp [pairs]
    rw [Record.required_ofList distinct listed, Record.readCount_ofNat_iff]
  constructor
  · intro back
    obtain ⟨fields, record, back⟩ := bind_eq_ok_iff.1 back
    cases Shape.eq_of_read record
    obtain ⟨winner, -, back⟩ := bind_eq_ok_iff.1 back
    obtain ⟨position, read, back⟩ := bind_eq_ok_iff.1 back
    obtain ⟨candidates, -, back⟩ := bind_eq_ok_iff.1 back
    obtain ⟨strategy, -, back⟩ := bind_eq_ok_iff.1 back
    obtain ⟨reason, -, back⟩ := bind_eq_ok_iff.1 back
    cases back
    exact index.1 read
  · intro word
    have winner : Record.required (Fields.ofList pairs) "winner" Assertion.read = .ok r.winner :=
      Record.required_of_listed distinct r.winner.toRecord (by simp [pairs]) winner
    have candidates : Record.required (Fields.ofList pairs) "candidates"
        (Record.readList Assertion.read) = .ok r.candidates :=
      Record.required_of_listed distinct (.array (r.candidates.map Assertion.toRecord))
        (by simp [pairs]) (Record.readList_map candidates)
    have strategy : Record.required (Fields.ofList pairs) "strategy" Named.ofJson =
        .ok r.strategy :=
      Record.required_of_listed distinct (Named.toJson r.strategy) (by simp [pairs])
        (Named.ofJson_toJson r.strategy.find?_name)
    have reason : Record.required (Fields.ofList pairs) "reason" Record.readText = .ok r.reason :=
      Record.required_of_listed distinct (.text r.reason) (by simp [pairs]) rfl
    have record : shape.read r.toRecord = .ok (Fields.ofList pairs) := by
      refine Shape.read_ofFields ?_
      simp only [shape, List.forall_mem_cons]
      exact ⟨.required winner, .required (index.2 word), .required candidates, .required strategy,
        .required reason, by simp⟩
    simp only [read, record, bind, Except.bind, winner, index.2 word, candidates, strategy, reason]
    rfl

end Resolution

variable [NumberText R]

/-- The winner is as legible as the candidates are: it is one of them, held with a score. -/
theorem legible_winner (scores : ScoresCombine R) {assertions : List (Assertion R)} {s : Strategy}
    {r : Resolution R} (h : resolve assertions s = .ok r)
    (legible : ∀ a ∈ assertions, a.WellFormed ∧ a.Dated) :
    r.winner.WellFormed ∧ r.winner.Dated := by
  obtain ⟨a, found, elected⟩ := resolve_elects h
  obtain ⟨formed, dated⟩ := legible a (List.mem_of_getElem? found)
  have unit (c : R) (held : r.winner.confidence = some c) : Scalar.InUnit c :=
    inUnit_of_winner scores h held
  rcases elected with same | ⟨c, other⟩
  · exact same ▸ ⟨formed, dated⟩
  · rw [other] at unit ⊢
    exact ⟨formed.held (unit c rfl), dated⟩

theorem read_resolution_iff (scores : ScoresCombine R) (finite : ScoresFinite R)
    {assertions : List (Assertion R)} (decoded : ∀ a ∈ assertions, a.Decoded) {s : Strategy}
    {r : Resolution R} (h : resolve assertions s = .ok r) :
    Resolution.read r.toRecord = .ok r ↔ Record.IsWord r.winnerIndex := by
  have back {a : Assertion R} (legible : a.WellFormed ∧ a.Dated) :=
    legible.1.read_toRecord legible.2 finite
  refine Resolution.read_toRecord_iff (back (legible_winner scores h
    (fun a ha => (decoded a ha).legible))) (fun a ha => back (decoded a ?_).legible)
  rwa [candidates_of_resolve h] at ha

/-- Records are read back. The difference of two graphs that are read from documents is read back
from its record. So are the account of any merge of such graphs and a decided contest of assertions
that are read from documents, the only limit being that counts and positions are words. -/
theorem audit_records_read_back (scores : ScoresCombine R) (finite : ScoresFinite R) :
    (∀ a b : Graph R, a.Decoded → b.Decoded →
      GraphDiff.read (a.diff b).toRecord = .ok (a.diff b)) ∧
    (∀ (graphs : List (Graph R)) (options : MergeOptions) (m : Graph R) (report : MergeReport R),
      (∀ g ∈ graphs, g.Decoded) → Graph.merge graphs options = .ok (m, report) →
        (MergeReport.read report.toRecord = .ok report ↔ report.Countable)) ∧
    ∀ (assertions : List (Assertion R)) (s : Strategy) (r : Resolution R),
      (∀ a ∈ assertions, a.Decoded) → resolve assertions s = .ok r →
        (Resolution.read r.toRecord = .ok r ↔ Record.IsWord r.winnerIndex) := by
  refine ⟨fun a b ha hb => ?_, fun graphs options m report decoded h =>
    Merge.read_report_iff scores finite decoded h, fun assertions s r decoded h =>
      read_resolution_iff scores finite decoded h⟩
  exact ((ha.throughout .legible).diff (hb.throughout .legible)).read_toRecord finite

def birth (year : Int) (held : Float) : Assertion Float :=
  ⟨.number (.whole year), some held, some "ex:archive", some ⟨1704067200, 0⟩, none,
    [("@calendar", .text "Gregorian")]⟩

def born (year : Int) (held : Float) : Graph Float :=
  .single ⟨some "ex:ada", ["Person"], some held, [("birth", .annotated (birth year held))]⟩

theorem legible_birth (year : Int) {held : Float} (unit : Scalar.InUnit held) :
    (birth year held).WellFormed ∧ (birth year held).Dated := by
  refine ⟨⟨fun c hc => Option.some.inj hc ▸ unit, List.pairwise_singleton _ _,
    List.forall_mem_singleton.2 (.text "Gregorian"), List.forall_mem_singleton.2 rfl,
    List.forall_mem_singleton.2 (by decide)⟩, fun t ht => ?_⟩
  cases ht
  rfl

theorem decoded_born (year : Int) {held : Float} (unit : Scalar.InUnit held) :
    (born year held).Decoded := by
  have node : Node.WellFormed ⟨some "ex:ada", ["Person"], some held,
      [("birth", .annotated (birth year held))]⟩ :=
    ⟨fun c hc => Option.some.inj hc ▸ unit, List.pairwise_singleton _ _,
      List.forall_mem_singleton.2 (show ¬ Node.Reserved "birth" by decide),
      List.forall_mem_singleton.2 (show "birth" ≠ Keyword.value by decide)⟩
  obtain ⟨formed, dated⟩ := legible_birth year unit
  have instants : (born year held).Dated := List.forall_mem_singleton.2
    (.node trivial (List.forall_mem_singleton.2 (.annotated dated)))
  rw [Graph.decoded_iff instants Binary64.scoresFinite]
  constructor
  case context =>
    intro c hc
    cases hc
  case nodes =>
    exact List.forall_mem_singleton.2
      (.node node (List.forall_mem_singleton.2 (.annotated formed)))

theorem audit_records_read_back_births :
    GraphDiff.read ((born 1815 0.5).diff (born 1816 0.75)).toRecord =
        .ok ((born 1815 0.5).diff (born 1816 0.75)) ∧
      (∃ m report, Graph.merge [born 1815 0.5, born 1816 0.75]
          ⟨.contest .weightedVote, .noisyOr⟩ = .ok (m, report) ∧ report.conflicts.length = 1 ∧
        MergeReport.read report.toRecord = .ok report) ∧
      ∃ r, resolve [birth 1815 0.5, birth 1816 0.75] .weightedVote = .ok r ∧
        Resolution.read r.toRecord = .ok r := by
  have half : Scalar.InUnit (0.5 : Float) := by decide +kernel
  have most : Scalar.InUnit (0.75 : Float) := by decide +kernel
  obtain ⟨differences, merges, contests⟩ :=
    audit_records_read_back Binary64.scoresCombine Binary64.scoresFinite
  refine ⟨differences _ _ (decoded_born 1815 half) (decoded_born 1816 most), ?_, ?_⟩
  · obtain ⟨⟨m, report⟩, run, told⟩ := exists_eq_ok_of_any
      (show (Graph.merge [born 1815 0.5, born 1816 0.75]
        ⟨.contest .weightedVote, .noisyOr⟩).toOption.any
          (fun made => decide (made.2.conflicts.length = 1 ∧ made.2.Countable)) = true by
        decide +kernel)
    obtain ⟨single, countable⟩ := of_decide_eq_true told
    refine ⟨m, report, run, single, (merges _ _ m report ?_ run).2 countable⟩
    exact List.forall_mem_cons.2
      ⟨decoded_born 1815 half, List.forall_mem_singleton.2 (decoded_born 1816 most)⟩
  · obtain ⟨r, resolved, word⟩ := exists_eq_ok_of_any
      (show (resolve [birth 1815 0.5, birth 1816 0.75] .weightedVote).toOption.any
        (fun r => decide (Record.IsWord r.winnerIndex)) = true by decide +kernel)
    refine ⟨r, resolved, (contests _ _ r ?_ resolved).2 (of_decide_eq_true word)⟩
    have decoded (year : Int) {held : Float} (unit : Scalar.InUnit held) :=
      (Assertion.decoded_iff Binary64.scoresFinite).2 (legible_birth year unit)
    exact List.forall_mem_cons.2
      ⟨decoded 1815 half, List.forall_mem_singleton.2 (decoded 1816 most)⟩

end Credence
