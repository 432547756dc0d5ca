import Credence.Proofs.Merge.Account
import Credence.Scalar.Binary64

/-! # Identifiers do not interfere

What a merged graph holds under an identifier, and what the account of the merge records there,
depends on the nodes with that identifier only: on which they are and in which order they come.
How many graphs they come from and which other nodes stand beside them makes no difference.
-/

namespace Credence.Merge
variable {R : Type}

/-- A key that tells the elements of a list apart picks one of them. -/
theorem filter_key_eq_singleton {α κ : Type} [BEq κ] [LawfulBEq κ] {key : α → κ} {xs : List α}
    (distinct : (xs.map key).Nodup) {x : α} (hx : x ∈ xs) :
    xs.filter (fun y => key y == key x) = [x] := by
  induction xs with
  | nil => cases hx
  | cons y rest ih =>
    rw [List.map_cons, List.nodup_cons] at distinct
    rcases List.mem_cons.1 hx with rfl | behind
    · have none : rest.filter (fun y => key y == key x) = [] := by
        rw [List.filter_eq_nil_iff]
        intro z hz same
        exact distinct.1 (eq_of_beq same ▸ List.mem_map_of_mem hz)
      rw [List.filter_cons_of_pos (p := fun y => key y == key x) (beq_self_eq_true _), none]
    · have other : ¬ (key y == key x) = true := by
        intro same
        exact distinct.1 (eq_of_beq same ▸ List.mem_map_of_mem behind)
      rw [List.filter_cons_of_neg (p := fun y => key y == key x) other, ih distinct.2 behind]

variable [Scalar R] [NumberText R]

theorem MergedNode.Merges.unique {k k' : MergedNode R} {options : MergeOptions}
    {members : List (Node R)} (h : k.Merges options members) (h' : k'.Merges options members)
    (same : k.id = k'.id) : k = k' := by
  have run := mergeNode_eq_ok_iff.2 ⟨same, h⟩
  rw [mergeNode_eq_ok_iff.2 ⟨rfl, h'⟩] at run
  exact (Except.ok.inj run).symm

namespace Assembled
variable {graphs : List (Graph R)} {options : MergeOptions} {m : Graph R}
  {report : MergeReport R} {merged : List (MergedNode R)}

/-- The merged node with an identifier, if there is one. -/
theorem filter_merged_of_mem (h : Assembled graphs options m report merged) {k : MergedNode R}
    (hk : k ∈ merged) : merged.filter (fun l => l.id == k.id) = [k] :=
  filter_key_eq_singleton h.ids.nodup hk

theorem filter_merged_of_absent (h : Assembled graphs options m report merged) {id : String}
    (absent : membersOf (graphs.flatMap Graph.nodes) id = []) :
    merged.filter (fun k => k.id == id) = [] := by
  rw [List.filter_eq_nil_iff]
  intro k hk same
  have present := (h.ids.mem_iff k.id).1 (List.mem_map_of_mem hk)
  rw [eq_of_beq same] at present
  exact membersOf_ne_nil_iff.2 present absent

theorem membersOf_nodes (h : Assembled graphs options m report merged) (id : String) :
    membersOf m.nodes id = (merged.filter (fun k => k.id == id)).map MergedNode.node := by
  have dropped : membersOf ((graphs.flatMap Graph.nodes).filter Node.isAnonymous) id = [] := by
    unfold membersOf
    rw [List.filter_eq_nil_iff]
    intro n hn same
    have anonymous : n.id.isNone := (List.mem_filter.1 hn).2
    simp [eq_of_beq same] at anonymous
  rw [h.nodes_eq, membersOf_append, dropped, List.append_nil]
  unfold membersOf
  rw [List.filter_map]
  rfl

theorem filter_conflicts (h : Assembled graphs options m report merged) (id : String) :
    report.conflicts.filter (fun c => c.nodeId == id) =
      (merged.filter (fun k => k.id == id)).flatMap MergedNode.conflicts := by
  have own {k : MergedNode R} (hk : k ∈ merged) {c : Conflict R} (hc : c ∈ k.conflicts) :
      c.nodeId = k.id := by
    rcases mem_conflicts.1 hc with ⟨p, ho⟩
    exact (h.record_of_mem hk ho).1
  rw [h.report_eq, reportOf_conflicts]
  clear h
  induction merged with
  | nil => rfl
  | cons k rest ih =>
    have behind := ih (fun hk => own (List.mem_cons_of_mem k hk))
    rw [List.flatMap_cons, List.filter_append, behind]
    by_cases here : k.id = id
    · have kept : k.conflicts.filter (fun c => c.nodeId == id) = k.conflicts := by
        rw [List.filter_eq_self]
        intro c hc
        simp [own List.mem_cons_self hc, here]
      rw [List.filter_cons_of_pos (by simpa using here), List.flatMap_cons, kept]
    · have dropped : k.conflicts.filter (fun c => c.nodeId == id) = [] := by
        rw [List.filter_eq_nil_iff]
        intro c hc
        simp [own List.mem_cons_self hc, here]
      rw [List.filter_cons_of_neg (by simpa using here), dropped, List.nil_append]

theorem filter_merged_congr {graphs' : List (Graph R)} {m' : Graph R} {report' : MergeReport R}
    {merged' : List (MergedNode R)} (h : Assembled graphs options m report merged)
    (h' : Assembled graphs' options m' report' merged') {id : String}
    (same : membersOf (graphs.flatMap Graph.nodes) id =
      membersOf (graphs'.flatMap Graph.nodes) id) :
    merged.filter (fun k => k.id == id) = merged'.filter (fun k => k.id == id) := by
  by_cases absent : membersOf (graphs.flatMap Graph.nodes) id = []
  · rw [h.filter_merged_of_absent absent, h'.filter_merged_of_absent (same ▸ absent)]
  · rcases h.exists_of_id (membersOf_ne_nil_iff.1 absent) with ⟨k, hk, rfl⟩
    rw [same] at absent
    rcases h'.exists_of_id (membersOf_ne_nil_iff.1 absent) with ⟨k', hk', same_id⟩
    have merges := h.merges k hk
    have merges' := h'.merges k' hk'
    rw [same_id, ← same] at merges'
    obtain rfl := merges.unique merges' same_id.symm
    rw [h.filter_merged_of_mem hk, h'.filter_merged_of_mem hk']

end Assembled

/-- Two successful merges under the same options in which the nodes with an identifier are the
same, whatever else they merge, leave the same node with that identifier, or both none, and record
the same conflicts at it. -/
theorem merge_isolated {graphs graphs' : List (Graph R)} {options : MergeOptions}
    {m m' : Graph R} {report report' : MergeReport R}
    (h : Graph.merge graphs options = .ok (m, report))
    (h' : Graph.merge graphs' options = .ok (m', report')) {id : String}
    (same : membersOf (graphs.flatMap Graph.nodes) id =
      membersOf (graphs'.flatMap Graph.nodes) id) :
    m.node? id = m'.node? id ∧ membersOf m.nodes id = membersOf m'.nodes id ∧
      report.conflicts.filter (fun c => c.nodeId == id) =
        report'.conflicts.filter (fun c => c.nodeId == id) := by
  rcases exists_assembled h with ⟨merged, assembled⟩
  rcases exists_assembled h' with ⟨merged', assembled'⟩
  have kept := assembled.filter_merged_congr assembled' same
  have members : membersOf m.nodes id = membersOf m'.nodes id := by
    rw [assembled.membersOf_nodes, assembled'.membersOf_nodes, kept]
  refine ⟨?_, members, ?_⟩
  · rw [Graph.node?, Graph.node?, ← List.head?_filter, ← List.head?_filter]
    exact congrArg List.head? members
  · rw [assembled.filter_conflicts, assembled'.filter_conflicts, kept]

def contestant (name : String) : Node Float :=
  ⟨some "ex:ada", ["Person"], none, [("name", .literal (.text name))]⟩

def bystander : Node Float := ⟨some "ex:lab", [], none, [("name", .literal (.text "Lab"))]⟩

def twoGraphs : List (Graph Float) :=
  [.ofNodes [contestant "Ada", bystander], .single (contestant "Augusta")]

def threeGraphs : List (Graph Float) :=
  [.single bystander, .ofNodes [.anonymous, contestant "Ada", bystander],
    .ofNodes [contestant "Augusta", .anonymous]]

theorem merge_isolated_contestants :
    ∃ m m' report report',
      Graph.merge twoGraphs ⟨.contest .weightedVote, .max⟩ = .ok (m, report) ∧
      Graph.merge threeGraphs ⟨.contest .weightedVote, .max⟩ = .ok (m', report') ∧
      membersOf (twoGraphs.flatMap Graph.nodes) "ex:ada" =
        membersOf (threeGraphs.flatMap Graph.nodes) "ex:ada" ∧
      (m.node? "ex:ada" = m'.node? "ex:ada" ∧
        membersOf m.nodes "ex:ada" = membersOf m'.nodes "ex:ada" ∧
        report.conflicts.filter (fun c => c.nodeId == "ex:ada") =
          report'.conflicts.filter (fun c => c.nodeId == "ex:ada")) := by
  obtain ⟨⟨m, report⟩, run⟩ := exists_eq_ok_of_isOk
    (show (Graph.merge twoGraphs ⟨.contest .weightedVote, .max⟩).isOk = true by decide +kernel)
  obtain ⟨⟨m', report'⟩, run'⟩ := exists_eq_ok_of_isOk
    (show (Graph.merge threeGraphs ⟨.contest .weightedVote, .max⟩).isOk = true by decide +kernel)
  have same : membersOf (twoGraphs.flatMap Graph.nodes) "ex:ada" =
      membersOf (threeGraphs.flatMap Graph.nodes) "ex:ada" := rfl
  exact ⟨m, m', report, report', run, run', same, merge_isolated run run' same⟩

end Credence.Merge
