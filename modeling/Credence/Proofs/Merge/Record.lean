import Credence.Proofs.Diff.Record
import Credence.Proofs.Merge.Account
import Credence.Proofs.Merge.Closure

/-! # Accounts of merges read back

A record of a contested property holds values that sources state and the value that is written for
them. What no step of a merge breaks holds throughout both, so the account of a merge of graphs that
are read from documents is read back as far as a document has whole numbers for its counts.
-/

namespace Credence
variable {R : Type} [Scalar R]

theorem MergeStrategy.find?_name (s : MergeStrategy) : Named.find? (Named.name s) = some s := by
  cases s with
  | contest strategy => cases strategy <;> rfl
  | union => rfl

theorem Conflict.read_toRecord {c : Conflict R}
    (values : ∀ v ∈ c.values, PropertyValue.read v.toJson = .ok v)
    (winner : PropertyValue.read c.winner.toJson = .ok c.winner) : read c.toRecord = .ok c := by
  let pairs : List (String × Json R) := [("nodeId", .text c.nodeId), ("property", .text c.property),
    ("values", .array (c.values.map PropertyValue.toJson)),
    ("strategy", Named.toJson c.strategy), ("winner", c.winner.toJson)] ++
      if c.reason.isEmpty then [] else [("reason", .text c.reason)]
  have distinct : (pairs.map Prod.fst).Nodup := by
    cases h : c.reason.isEmpty <;> simp [pairs, h]
  have nodeId : Record.required (Fields.ofList pairs) "nodeId" Record.readText = .ok c.nodeId :=
    Record.required_of_listed distinct (.text c.nodeId) (by simp [pairs]) rfl
  have property : Record.required (Fields.ofList pairs) "property" Record.readText =
      .ok c.property :=
    Record.required_of_listed distinct (.text c.property) (by simp [pairs]) rfl
  have values : Record.required (Fields.ofList pairs) "values"
      (Record.readList PropertyValue.read) = .ok c.values :=
    Record.required_of_listed distinct (.array (c.values.map PropertyValue.toJson))
      (by simp [pairs]) (Record.readList_map values)
  have strategy : Record.required (Fields.ofList pairs) "strategy" Named.ofJson =
      .ok c.strategy :=
    Record.required_of_listed distinct (Named.toJson c.strategy) (by simp [pairs])
      (Named.ofJson_toJson c.strategy.find?_name)
  have winner : Record.required (Fields.ofList pairs) "winner" PropertyValue.read = .ok c.winner :=
    Record.required_of_listed distinct c.winner.toJson (by simp [pairs]) winner
  -- The default of a reason that is left out is the empty one.
  have reason : Record.omissible (Fields.ofList pairs) "reason" Record.readText "" =
      .ok c.reason := by
    cases empty : c.reason.isEmpty with
    | true =>
      rw [Record.omissible, Fields.get?_ofList_of_notMem (by simp [pairs, empty]),
        String.isEmpty_iff.1 empty]
    | false =>
      rw [Record.omissible, Fields.get?_ofList_of_mem distinct (v := .text c.reason)
        (by simp [pairs, empty])]
      rfl
  have record : shape.read c.toRecord = .ok (Fields.ofList pairs) := by
    refine Shape.read_ofFields ?_
    simp only [shape, List.forall_mem_cons]
    exact ⟨.required nodeId, .required property, .required values, .required strategy,
      .required winner, .omissible reason, by simp⟩
  simp only [read, record, bind, Except.bind, nodeId, property, values, strategy, winner, reason]
  rfl

/-- All counts of an account are words, so that a document has whole numbers for them. -/
structure MergeReport.Countable {R : Type} (r : MergeReport R) : Prop where
  sources : Record.IsWord r.sourceCount
  agreed : Record.IsWord r.propertiesAgreed
  conflicted : Record.IsWord r.propertiesConflicted
  unioned : Record.IsWord r.propertiesUnioned

instance MergeReport.decidableCountable {R : Type} (r : MergeReport R) : Decidable r.Countable :=
  decidable_of_iff (Record.IsWord r.sourceCount ∧ Record.IsWord r.propertiesAgreed ∧
    Record.IsWord r.propertiesConflicted ∧ Record.IsWord r.propertiesUnioned)
    ⟨fun ⟨hs, ha, hc, hu⟩ => ⟨hs, ha, hc, hu⟩, fun ⟨hs, ha, hc, hu⟩ => ⟨hs, ha, hc, hu⟩⟩

theorem MergeReport.read_toRecord_iff {r : MergeReport R}
    (conflicts : ∀ c ∈ r.conflicts, Conflict.read c.toRecord = .ok c) :
    read r.toRecord = .ok r ↔ r.Countable := by
  let pairs : List (String × Json R) := [("sourceCount", .ofNat r.sourceCount),
    ("propertiesAgreed", .ofNat r.propertiesAgreed),
    ("propertiesConflicted", .ofNat r.propertiesConflicted),
    ("propertiesUnioned", .ofNat r.propertiesUnioned),
    ("conflicts", .array (r.conflicts.map Conflict.toRecord))]
  have distinct : (pairs.map Prod.fst).Nodup := by simp [pairs]
  have count {name : String} {n : Nat} (listed : (name, Json.ofNat n) ∈ pairs) :
      Record.required (Fields.ofList pairs) name Record.readCount = .ok n ↔ Record.IsWord n := by
    rw [Record.required_ofList distinct listed, Record.readCount_ofNat_iff]
  have sources : Record.required (Fields.ofList pairs) "sourceCount" Record.readCount =
      .ok r.sourceCount ↔ Record.IsWord r.sourceCount := count (by simp [pairs])
  have agreed : Record.required (Fields.ofList pairs) "propertiesAgreed" Record.readCount =
      .ok r.propertiesAgreed ↔ Record.IsWord r.propertiesAgreed := count (by simp [pairs])
  have conflicted : Record.required (Fields.ofList pairs) "propertiesConflicted" Record.readCount =
      .ok r.propertiesConflicted ↔ Record.IsWord r.propertiesConflicted := count (by simp [pairs])
  have unioned : Record.required (Fields.ofList pairs) "propertiesUnioned" Record.readCount =
      .ok r.propertiesUnioned ↔ Record.IsWord r.propertiesUnioned := count (by simp [pairs])
  constructor
  · intro back
    obtain ⟨fields, record, back⟩ := bind_eq_ok_iff.1 back
    cases Shape.eq_of_read record
    obtain ⟨sourceCount, hs, back⟩ := bind_eq_ok_iff.1 back
    obtain ⟨agreedCount, ha, back⟩ := bind_eq_ok_iff.1 back
    obtain ⟨conflictedCount, hc, back⟩ := bind_eq_ok_iff.1 back
    obtain ⟨unionedCount, hu, back⟩ := bind_eq_ok_iff.1 back
    obtain ⟨conflicts, -, back⟩ := bind_eq_ok_iff.1 back
    cases back
    exact ⟨sources.1 hs, agreed.1 ha, conflicted.1 hc, unioned.1 hu⟩
  · rintro ⟨hs, ha, hc, hu⟩
    have conflicts : Record.required (Fields.ofList pairs) "conflicts"
        (Record.readList Conflict.read) = .ok r.conflicts :=
      Record.required_of_listed distinct (.array (r.conflicts.map Conflict.toRecord))
        (by simp [pairs]) (Record.readList_map conflicts)
    have record : shape.read r.toRecord = .ok (Fields.ofList pairs) := by
      refine Shape.read_ofFields ?_
      simp only [shape, List.forall_mem_cons]
      exact ⟨.required (sources.2 hs), .required (agreed.2 ha), .required (conflicted.2 hc),
        .required (unioned.2 hu), .required conflicts, by simp⟩
    simp only [read, record, bind, Except.bind, sources.2 hs, agreed.2 ha, conflicted.2 hc,
      unioned.2 hu, conflicts]
    rfl

namespace Merge
variable [NumberText R] {graphs : List (Graph R)} {options : MergeOptions} {m : Graph R}
  {report : MergeReport R}

/-- What no step of a merge breaks holds throughout the values of every record. -/
theorem Kept.record {A : Assertion R → Prop} {N : Node R → Prop} (kept : Kept A N)
    (scores : ScoresCombine R) (sources : ∀ g ∈ graphs, g.Throughout A N)
    (h : Graph.merge graphs options = .ok (m, report)) {c : Conflict R}
    (hc : c ∈ report.conflicts) :
    (∀ v ∈ c.values, v.Throughout A N) ∧ c.winner.Throughout A N := by
  obtain ⟨merged, assembled⟩ := exists_assembled h
  obtain ⟨-, values, k, hk, written⟩ := assembled.record_of_mem_conflicts hc
  constructor
  · intro v hv
    rw [values] at hv
    obtain ⟨n, hn, found⟩ := mem_valuesOf.1 hv
    obtain ⟨g, hg, hn⟩ := List.mem_flatMap.1 (mem_membersOf.1 hn).1
    exact Node.values_of_throughout (sources g hg n hn) _ (Fields.mem_of_get?_eq_some found)
  · have held := (kept.merge scores sources h).of_node? hk
    exact Node.values_of_throughout held _ (Fields.mem_of_get?_eq_some written)

/-- The account of a merge of graphs that are read from documents is read back where its counts
are. -/
theorem read_report_iff (scores : ScoresCombine R) (finite : ScoresFinite R)
    (decoded : ∀ g ∈ graphs, g.Decoded) (h : Graph.merge graphs options = .ok (m, report)) :
    MergeReport.read report.toRecord = .ok report ↔ report.Countable := by
  refine MergeReport.read_toRecord_iff (fun c hc => ?_)
  obtain ⟨values, winner⟩ := (kept_wellFormed scores).record scores
    (fun g hg => (decoded g hg).wellFormed.nodes) h hc
  obtain ⟨dates, date⟩ := kept_dated.record scores (fun g hg => (decoded g hg).dated) h hc
  have legible {v : PropertyValue R} (formed : v.Throughout Assertion.WellFormed Node.WellFormed)
      (dated : v.Throughout Assertion.Dated (fun _ => True)) : v.Legible := by
    simpa [PropertyValue.Legible] using formed.and dated
  exact Conflict.read_toRecord (fun v hv => (legible (values v hv) (dates v hv)).read_toJson finite)
    ((legible winner date).read_toJson finite)

end Merge
end Credence
