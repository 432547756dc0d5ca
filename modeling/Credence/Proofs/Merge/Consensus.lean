import Credence.Proofs.Graph.Bare
import Credence.Proofs.Graph.Decoding
import Credence.Proofs.Merge.Refusal

/-! # Merges of sources that agree

Sources that are read from documents can be merged under any options. Where they agree on all that
they speak of nothing is contested, and the account of the merge is determined by the number of
sources and by the properties that their nodes have.
-/

namespace Credence.Merge
open PropertyValue

section
variable {R : Type}

/-- The number of properties that nodes have once they are merged. -/
def propertyCount (nodes : List (Node R)) : Nat :=
  ((gather nodes).buckets.map (fun b => (propertyNames b.members).length)).sum

variable [Scalar R]

/-- Any two of some values say the same. -/
def Unanimous (values : List (PropertyValue R)) : Prop :=
  values.Pairwise (fun v w => v.agrees w = true)

/-- Any two values that sources give a property of a node say the same. -/
def SourcesAgree (graphs : List (Graph R)) : Prop :=
  ∀ id p, Unanimous (valuesOf (membersOf (graphs.flatMap Graph.nodes) id) p)

theorem spelled_of_mem_valuesOf {members : List (Node R)} (spelled : ∀ n ∈ members, n.Spelled)
    {p : String} {v : PropertyValue R} (hv : v ∈ valuesOf members p) : v.Spelled := by
  rcases mem_valuesOf.1 hv with ⟨n, hn, held⟩
  exact (spelled n hn).values (p, v) (Fields.mem_of_get?_eq_some held)

theorem inUnit_of_mem_stated {values : List (PropertyValue R)} (spelled : ∀ v ∈ values, v.Spelled)
    {c : R} (hc : c ∈ stated values) : Scalar.InUnit c := by
  rcases List.mem_filterMap.1 hc with ⟨v, hv, held⟩
  exact (spelled v hv).score held

end

section
variable {K : Type} [Field K] [LinearOrder K]

theorem agrees_first {first : PropertyValue K} {rest : List (PropertyValue K)}
    (agreed : Unanimous (first :: rest)) :
    ∀ v ∈ rest, v.agrees first = true := by
  intro v hv
  rw [agrees_comm]
  exact (List.pairwise_cons.1 agreed).1 v hv

variable [NumberText K]

/-- A property on which the members agree becomes what their agreement leaves. -/
theorem Becomes.agreed {options : MergeOptions} {id p : String} {members : List (Node K)}
    {o : Outcome K} (h : Becomes options id members p o)
    (agreed : Unanimous (valuesOf members p)) :
    ∃ first rest w, valuesOf members p = first :: rest ∧
      agree first rest options.combination = .ok w ∧ o = .agreed w := by
  rcases h with ⟨first, rest, values, reconciled⟩
  rw [values] at agreed
  rcases (reconcile_eq_ok_of_agree (agrees_first agreed)).1 reconciled with ⟨w, hw, rfl⟩
  exact ⟨first, rest, w, values, hw, rfl⟩

theorem MergedNode.Merges.outcomes_agreed {k : MergedNode K} {options : MergeOptions}
    {members : List (Node K)} (h : k.Merges options members)
    (agreed : ∀ p, Unanimous (valuesOf members p))
    {o : String × Outcome K} (ho : o ∈ k.outcomes) : ∃ w, o.2 = .agreed w := by
  rcases exists_mem_of_forall₂ h.outcomes.flip ho with ⟨p, -, -, becomes⟩
  rcases becomes.agreed (agreed p) with ⟨first, rest, w, -, -, same⟩
  exact ⟨w, same⟩

theorem MergedNode.Merges.conflicts_eq_nil {k : MergedNode K} {options : MergeOptions}
    {members : List (Node K)} (h : k.Merges options members)
    (agreed : ∀ p, Unanimous (valuesOf members p)) :
    k.conflicts = [] := by
  unfold MergedNode.conflicts
  rw [List.filterMap_eq_nil_iff]
  intro o ho
  rcases h.outcomes_agreed agreed ho with ⟨w, same⟩
  rw [same]
  rfl

theorem MergedNode.Merges.countP_isAgreed {k : MergedNode K} {options : MergeOptions}
    {members : List (Node K)} (h : k.Merges options members)
    (agreed : ∀ p, Unanimous (valuesOf members p)) :
    k.outcomes.countP (fun o => o.2.isAgreed) = (propertyNames members).length := by
  rw [h.outcomes.length_eq, List.countP_eq_length]
  intro o ho
  rcases h.outcomes_agreed agreed ho with ⟨w, same⟩
  rw [same]
  rfl

theorem report_eq_of_agree {graphs : List (Graph K)} {options : MergeOptions} {m : Graph K}
    {report : MergeReport K} (h : Graph.merge graphs options = .ok (m, report))
    (agreed : SourcesAgree graphs) :
    report = ⟨graphs.length, propertyCount (graphs.flatMap Graph.nodes), 0, 0, []⟩ := by
  rcases merge_eq_ok_iff.1 h with ⟨-, merged, hm, -, rfl⟩
  have covers := gather_covers (graphs.flatMap Graph.nodes)
  have agreed' : ∀ b ∈ (gather (graphs.flatMap Graph.nodes)).buckets, ∀ p,
      Unanimous (valuesOf b.members p) := by
    intro b hb
    rw [covers.members_eq b hb]
    exact agreed b.id
  have conflicts : merged.flatMap MergedNode.conflicts = [] := by
    rw [List.flatMap_eq_nil_iff]
    intro k hk
    rcases exists_mem_of_forall₂ hm.flip hk with ⟨b, hb, -, merges⟩
    exact merges.conflicts_eq_nil (agreed' b hb)
  have count : (merged.flatMap MergedNode.outcomes).countP (fun o => o.2.isAgreed) =
      propertyCount (graphs.flatMap Graph.nodes) := by
    rw [List.countP_flatMap]
    congr 1
    apply map_eq_map_of_forall₂
    apply ((List.forall₂_and_left _ _).2 ⟨agreed', hm⟩).imp
    intro b k merges
    exact merges.2.2.countP_isAgreed merges.1
  have clean := (reportOf_conflicts graphs.length merged).trans conflicts
  rw [(reportOf_tallies graphs.length merged).eq_of_clean clean, count]

end

/-- Sources that are read from documents can be merged under any options. -/
theorem exists_merge {K : Type} [Field K] [LinearOrder K] [IsStrictOrderedRing K] [NumberText K]
    {graphs : List (Graph K)} (options : MergeOptions)
    (enough : 2 ≤ graphs.length) (spelled : ∀ n ∈ graphs.flatMap Graph.nodes, n.Spelled) :
    ∃ m report, Graph.merge graphs options = .ok (m, report) := by
  have spelled_members (id : String) :
      ∀ n ∈ membersOf (graphs.flatMap Graph.nodes) id, n.Spelled :=
    fun n hn => spelled n (mem_membersOf.1 hn).1
  refine exists_merge_of_checked scoresCombine enough (fun c checked => ?_)
  cases checked with
  | node id several mem =>
    rcases List.mem_filterMap.1 mem with ⟨n, hn, held⟩
    exact (spelled_members id n hn).score c held
  | agreed id p first rest values same several mem =>
    rw [← values] at mem
    exact inUnit_of_mem_stated (fun v => spelled_of_mem_valuesOf (spelled_members id)) mem
  | contested id p s contest contested mem =>
    exact inUnit_of_mem_stated (fun v => spelled_of_mem_valuesOf (spelled_members id)) mem

end Credence.Merge
