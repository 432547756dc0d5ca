import Mathlib.Algebra.Order.BigOperators.Group.List
import Mathlib.Algebra.Order.Field.Rat
import Mathlib.Tactic.FieldSimp
import Mathlib.Tactic.Linarith
import Mathlib.Tactic.Ring
import Credence.Opinion.Fusion
import Credence.Proofs.Opinion.Exact

/-! # Fusion adds up evidence

An opinion made of evidence beside a prior leaves the share of the prior uncertain. Cumulative
fusion of two such opinions is the opinion of their evidence together, unless both are dogmatic:
then they are averaged, and nothing is left uncertain from there on. So the sum of all evidence is
what a fusion arrives at exactly where it meets no two dogmatic opinions on its way.
-/

namespace Credence.Opinion
open Scalar (InUnit)
variable {K : Type} [Field K] [LinearOrder K]

/-- The fusion of the opinions of some evidence for and against, each counted beside one prior. -/
def fusedEvidence (weight baseRate : K) (counts : List (K × K)) : Except (Error K) (Opinion K) := do
  let opinions ← counts.mapM (fun c => ofEvidence c.1 c.2 weight baseRate)
  cumulativeFuse opinions

/-- No two dogmatic opinions meet when some opinions are fused after a first one. -/
def ApartFrom (x : Opinion K) : List (Opinion K) → Prop
  | [] => True
  | y :: rest => ¬ (x.isDogmatic = true ∧ y.isDogmatic = true) ∧
      ∀ z, cumulativePair x y = .ok z → ApartFrom z rest

def Apart : List (Opinion K) → Prop
  | [] => True
  | first :: rest => ApartFrom first rest

theorem apartFrom_of_uncertain {opinions : List (Opinion K)}
    (uncertain : ∀ y ∈ opinions, y.isDogmatic = false) (x : Opinion K) : ApartFrom x opinions := by
  induction opinions generalizing x with
  | nil => trivial
  | cons y rest ih =>
    obtain ⟨here, behind⟩ := List.forall_mem_cons.1 uncertain
    exact ⟨by simp [here], fun z _ => ih behind z⟩

/-- The general formula, where not both opinions are dogmatic. -/
theorem cumulativePair_eq_settle {x y : Opinion K}
    (apart : ¬ (x.isDogmatic = true ∧ y.isDogmatic = true)) :
    cumulativePair x y = settle
      ((x.belief * y.uncertainty + y.belief * x.uncertainty) / cumulativeTotal x y)
      ((x.disbelief * y.uncertainty + y.disbelief * x.uncertainty) / cumulativeTotal x y)
      ((x.uncertainty * y.uncertainty) / cumulativeTotal x y)
      (Scalar.halfSum x.baseRate y.baseRate) := by
  rw [cumulativePair, if_neg (by simpa using apart)]

/-- The opinion of some evidence for and against, counted beside a prior. -/
structure FromEvidence (weight baseRate : K) (e : K × K) (o : Opinion K) : Prop where
  belief : o.belief = e.1 / (e.1 + e.2 + weight)
  disbelief : o.disbelief = e.2 / (e.1 + e.2 + weight)
  uncertainty : o.uncertainty = weight / (e.1 + e.2 + weight)
  baseRate : o.baseRate = baseRate

theorem FromEvidence.eq {w a : K} {e : K × K} {x y : Opinion K} (hx : FromEvidence w a e x)
    (hy : FromEvidence w a e y) : x = y := by
  apply Opinion.ext
  · rw [hx.belief, hy.belief]
  · rw [hx.disbelief, hy.disbelief]
  · rw [hx.uncertainty, hy.uncertainty]
  · rw [hx.baseRate, hy.baseRate]

/-- Evidence whose opinion beside a prior is not dogmatic. -/
structure Source (weight baseRate : K) (c : K × K) : Prop where
  nonneg : 0 ≤ c.1 ∧ 0 ≤ c.2
  uncertain : ∀ o, ofEvidence c.1 c.2 weight baseRate = .ok o → o.isDogmatic = false

def joined (e e' : K × K) : K × K := (e.1 + e'.1, e.2 + e'.2)

def totalEvidence (counts : List (K × K)) : K × K :=
  ((counts.map Prod.fst).sum, (counts.map Prod.snd).sum)

theorem totalEvidence_joined (e e' : K × K) (counts : List (K × K)) :
    totalEvidence (joined e e' :: counts) = totalEvidence (e :: e' :: counts) := by
  simp only [totalEvidence, joined, List.map_cons, List.sum_cons, add_assoc]

theorem totalEvidence_perm {counts counts' : List (K × K)} (h : counts.Perm counts') :
    totalEvidence counts = totalEvidence counts' := by
  simp only [totalEvidence, (h.map _).sum_eq]

theorem totalEvidence_flatten (groups : List (List (K × K))) :
    totalEvidence groups.flatten = totalEvidence (groups.map totalEvidence) := by
  simp only [totalEvidence, List.map_flatten, List.sum_flatten, List.map_map]
  rfl

section Arithmetic
variable {p p' t t' w : K}

/-- What is left uncertain by one or the other of two totals that share a prior. -/
theorem shared_uncertainty (ht : t ≠ 0) (ht' : t' ≠ 0) :
    w / t + w / t' - w / t * (w / t') = w * (t + t' - w) / (t * t') := by
  field_simp
  ring

theorem shared_evidence (hw : w ≠ 0) (ht : t ≠ 0) (ht' : t' ≠ 0) (h : t + t' - w ≠ 0) :
    (p / t * (w / t') + p' / t' * (w / t)) / (w / t + w / t' - w / t * (w / t')) =
      (p + p') / (t + t' - w) := by
  rw [shared_uncertainty ht ht']
  field_simp

theorem shared_prior (hw : w ≠ 0) (ht : t ≠ 0) (ht' : t' ≠ 0) (h : t + t' - w ≠ 0) :
    w / t * (w / t') / (w / t + w / t' - w / t * (w / t')) = w / (t + t' - w) := by
  rw [shared_uncertainty ht ht']
  field_simp

end Arithmetic

/-- Dogmatic opinions that meet leave nothing uncertain. -/
theorem uncertainty_eq_zero_of_dogmatic [IsStrictOrderedRing K] {x y z : Opinion K}
    (both : x.isDogmatic = true ∧ y.isDogmatic = true) (h : cumulativePair x y = .ok z) :
    z.uncertainty = 0 := by
  rw [cumulativePair, if_pos (by simpa using both)] at h
  rw [(components_of_make h).2.2.1]
  exact settled_of_inUnit ⟨le_rfl, zero_le_one⟩

/-- Where nothing is left uncertain nothing becomes so. -/
theorem uncertainty_eq_zero_of_cumulativePair [IsStrictOrderedRing K] {x y z : Opinion K}
    (certain : x.uncertainty = 0) (h : cumulativePair x y = .ok z) : z.uncertainty = 0 := by
  by_cases both : x.isDogmatic = true ∧ y.isDogmatic = true
  · exact uncertainty_eq_zero_of_dogmatic both h
  · rw [cumulativePair_eq_settle both, certain, zero_mul, zero_div] at h
    rw [(components_of_make h).2.2.1]
    exact settled_of_inUnit ⟨le_rfl, zero_le_one⟩

theorem uncertainty_eq_zero_of_foldlM [IsStrictOrderedRing K] {opinions : List (Opinion K)}
    {x z : Opinion K} (certain : x.uncertainty = 0) (h : opinions.foldlM cumulativePair x = .ok z) :
    z.uncertainty = 0 := by
  induction opinions generalizing x with
  | nil =>
    cases h
    exact certain
  | cons y rest ih =>
    obtain ⟨next, made, h⟩ := bind_eq_ok_iff.1 (List.foldlM_cons.symm.trans h)
    exact ih (uncertainty_eq_zero_of_cumulativePair certain made) h

variable [IsStrictOrderedRing K]

theorem inUnit_div {p t : K} (low : 0 ≤ p) (high : p ≤ t) (positive : 0 < t) : InUnit (p / t) :=
  ⟨div_nonneg low positive.le, (div_le_one positive).2 high⟩

section
variable {w a : K}

theorem joined_nonneg {e e' : K × K} (he : 0 ≤ e.1 ∧ 0 ≤ e.2) (he' : 0 ≤ e'.1 ∧ 0 ≤ e'.2) :
    0 ≤ (joined e e').1 ∧ 0 ≤ (joined e e').2 :=
  ⟨add_nonneg he.1 he'.1, add_nonneg he.2 he'.2⟩

theorem total_nonneg {counts : List (K × K)} (nonneg : ∀ c ∈ counts, 0 ≤ c.1 ∧ 0 ≤ c.2) :
    0 ≤ (totalEvidence counts).1 ∧ 0 ≤ (totalEvidence counts).2 :=
  ⟨List.sum_nonneg (List.forall_mem_map.2 (fun c hc => (nonneg c hc).1)),
    List.sum_nonneg (List.forall_mem_map.2 (fun c hc => (nonneg c hc).2))⟩

theorem total_pos (hw : 0 < w) {e : K × K} (he : 0 ≤ e.1 ∧ 0 ≤ e.2) : 0 < e.1 + e.2 + w := by
  linarith

/-- Evidence beside a prior makes up one unit of mass. -/
theorem fault?_evidence (hw : 0 < w) (ha : InUnit a) {e : K × K} (he : 0 ≤ e.1 ∧ 0 ≤ e.2) :
    fault? (e.1 / (e.1 + e.2 + w)) (e.2 / (e.1 + e.2 + w)) (w / (e.1 + e.2 + w)) a = none := by
  have total := total_pos hw he
  obtain ⟨positive, negative⟩ := he
  refine fault?_eq_none (inUnit_div positive (by linarith) total)
    (inUnit_div negative (by linarith) total) (inUnit_div hw.le (by linarith) total) ha ?_
  rw [← add_div, ← add_div, div_self total.ne']

theorem ofEvidence_eq_ok_iff (hw : 0 < w) (ha : InUnit a) {e : K × K} (he : 0 ≤ e.1 ∧ 0 ≤ e.2)
    {o : Opinion K} : ofEvidence e.1 e.2 w a = .ok o ↔ FromEvidence w a e o := by
  have finite (v : K) : Scalar.isFinite v = true := rfl
  have nonneg : ¬ e.1 < 0 ∧ ¬ e.2 < 0 := ⟨not_lt.2 he.1, not_lt.2 he.2⟩
  have made : ofEvidence e.1 e.2 w a = .ok ⟨_, _, _, _, fault?_evidence hw ha he⟩ := by
    rw [← settle_eq_ok]
    simp [ofEvidence, finite, nonneg, not_le.2 hw]
  rw [made]
  constructor
  · rintro h
    cases h
    exact ⟨rfl, rfl, rfl, rfl⟩
  · intro h
    exact congrArg Except.ok (FromEvidence.eq ⟨rfl, rfl, rfl, rfl⟩ h)

theorem exists_ofEvidence (hw : 0 < w) (ha : InUnit a) {e : K × K} (he : 0 ≤ e.1 ∧ 0 ≤ e.2) :
    ∃ o, ofEvidence e.1 e.2 w a = .ok o := by
  refine ⟨⟨_, _, _, _, fault?_evidence hw ha he⟩, ?_⟩
  exact (ofEvidence_eq_ok_iff hw ha he).2 ⟨rfl, rfl, rfl, rfl⟩

/-- Evidence makes an opinion exactly where neither count is negative and the prior has weight. -/
theorem exists_ofEvidence_iff (ha : InUnit a) {p n : K} :
    (∃ o, ofEvidence p n w a = .ok o) ↔ 0 ≤ p ∧ 0 ≤ n ∧ 0 < w := by
  have finite (v : K) : Scalar.isFinite v = true := rfl
  constructor
  · rintro ⟨o, made⟩
    unfold ofEvidence at made
    split at made
    · cases made
    · next counts =>
      split at made
      · cases made
      · next weight =>
        simp only [finite, Bool.not_true, Bool.false_or, Bool.or_eq_true, decide_eq_true_eq,
          not_or, not_lt, not_le] at counts weight
        exact ⟨counts.1, counts.2, weight⟩
  · rintro ⟨hp, hn, hw⟩
    exact exists_ofEvidence hw ha (e := (p, n)) ⟨hp, hn⟩

/-- Two opinions that are not both dogmatic are fused to the opinion of all their evidence. -/
theorem FromEvidence.cumulativePair (hw : 0 < w) (ha : InUnit a) {e e' : K × K}
    (he : 0 ≤ e.1 ∧ 0 ≤ e.2) (he' : 0 ≤ e'.1 ∧ 0 ≤ e'.2) {x y : Opinion K}
    (hx : FromEvidence w a e x) (hy : FromEvidence w a e' y)
    (apart : ¬ (x.isDogmatic = true ∧ y.isDogmatic = true)) :
    ∃ z, x.cumulativePair y = .ok z ∧ FromEvidence w a (joined e e') z := by
  have together := joined_nonneg he he'
  have shared : e.1 + e.2 + w + (e'.1 + e'.2 + w) - w =
      (joined e e').1 + (joined e e').2 + w := by
    simp only [joined]
    ring
  have ht := (total_pos hw he).ne'
  have ht' := (total_pos hw he').ne'
  have h : e.1 + e.2 + w + (e'.1 + e'.2 + w) - w ≠ 0 := shared ▸ (total_pos hw together).ne'
  have rate : Scalar.halfSum x.baseRate y.baseRate = a := by
    rw [hx.baseRate, hy.baseRate]
    exact add_self_div_two a
  have made : x.cumulativePair y = .ok ⟨_, _, _, _, fault?_evidence hw ha together⟩ := by
    rw [← settle_eq_ok, cumulativePair_eq_settle apart, rate, cumulativeTotal, hx.belief,
      hx.disbelief, hx.uncertainty, hy.belief, hy.disbelief, hy.uncertainty,
      shared_evidence hw.ne' ht ht' h, shared_evidence hw.ne' ht ht' h,
      shared_prior hw.ne' ht ht' h, shared]
    rfl
  exact ⟨_, made, rfl, rfl, rfl, rfl⟩

theorem FromEvidence.uncertainty_pos (hw : 0 < w) {e : K × K} (he : 0 ≤ e.1 ∧ 0 ≤ e.2)
    {o : Opinion K} (h : FromEvidence w a e o) : 0 < o.uncertainty := by
  rw [h.uncertainty]
  exact div_pos hw (total_pos hw he)

/-- Fusing more opinions after a first one arrives at the opinion of all their evidence exactly
where no two dogmatic opinions meet. -/
theorem FromEvidence.foldlM_eq_ok_iff (hw : 0 < w) (ha : InUnit a) {e : K × K} {x : Opinion K}
    (hx : FromEvidence w a e x) {es : List (K × K)} (nonneg : ∀ c ∈ e :: es, 0 ≤ c.1 ∧ 0 ≤ c.2)
    {opinions : List (Opinion K)} (counted : List.Forall₂ (FromEvidence w a) es opinions)
    {total : Opinion K} (htotal : FromEvidence w a (totalEvidence (e :: es)) total) :
    opinions.foldlM Opinion.cumulativePair x = .ok total ↔ ApartFrom x opinions := by
  induction counted generalizing e x with
  | nil =>
    have only : totalEvidence [e] = e := by simp [totalEvidence]
    rw [only] at htotal
    exact ⟨fun _ => trivial, fun _ => congrArg Except.ok (hx.eq htotal)⟩
  | @cons e' y es opinions hy counted ih =>
    rw [List.foldlM_cons, ApartFrom]
    by_cases both : x.isDogmatic = true ∧ y.isDogmatic = true
    -- From here on nothing is left uncertain, but the evidence together leaves something so.
    · refine iff_of_false (fun h => ?_) (fun apart => apart.1 both)
      obtain ⟨z, made, h⟩ := bind_eq_ok_iff.1 h
      have certain := uncertainty_eq_zero_of_foldlM (uncertainty_eq_zero_of_dogmatic both made) h
      exact (htotal.uncertainty_pos hw (total_nonneg nonneg)).ne' certain
    · obtain ⟨he, he', behind⟩ := by simpa only [List.forall_mem_cons] using nonneg
      obtain ⟨z, made, hz⟩ := hx.cumulativePair hw ha he he' hy both
      rw [← totalEvidence_joined] at htotal
      have rest := ih hz (List.forall_mem_cons.2 ⟨joined_nonneg he he', behind⟩) htotal
      simp [made, bind, Except.bind, both, rest]

theorem cumulativeFuse_eq_ok_iff (hw : 0 < w) (ha : InUnit a) {es : List (K × K)} (some : es ≠ [])
    (nonneg : ∀ c ∈ es, 0 ≤ c.1 ∧ 0 ≤ c.2) {opinions : List (Opinion K)}
    (counted : List.Forall₂ (FromEvidence w a) es opinions) {total : Opinion K}
    (htotal : FromEvidence w a (totalEvidence es) total) :
    cumulativeFuse opinions = .ok total ↔ Apart opinions := by
  cases counted with
  | nil => exact absurd rfl some
  | cons hx counted => exact hx.foldlM_eq_ok_iff hw ha nonneg counted htotal

theorem fusedEvidence_eq_ok (hw : 0 < w) (ha : InUnit a) {counts : List (K × K)}
    (some : counts ≠ []) (sources : ∀ c ∈ counts, Source w a c) {total : Opinion K}
    (htotal : FromEvidence w a (totalEvidence counts) total) :
    fusedEvidence w a counts = .ok total := by
  have each : ∀ c ∈ counts, ∃ o, ofEvidence c.1 c.2 w a = .ok o ∧
      (FromEvidence w a c o ∧ o.isDogmatic = false) := by
    intro c hc
    obtain ⟨o, made⟩ := exists_ofEvidence hw ha (sources c hc).nonneg
    exact ⟨o, made, (ofEvidence_eq_ok_iff hw ha (sources c hc).nonneg).1 made,
      (sources c hc).uncertain o made⟩
  obtain ⟨opinions, made, counted⟩ := exists_mapM_related each
  have uncertain : ∀ y ∈ opinions, y.isDogmatic = false := by
    intro y hy
    obtain ⟨c, -, -, uncertain⟩ := exists_mem_of_forall₂ counted.flip hy
    exact uncertain
  have apart : Apart opinions := by
    cases opinions with
    | nil => trivial
    | cons first rest => exact apartFrom_of_uncertain (List.forall_mem_cons.1 uncertain).2 first
  refine bind_eq_ok_iff.2 ⟨opinions, made, ?_⟩
  exact (cumulativeFuse_eq_ok_iff hw ha some (fun c hc => (sources c hc).nonneg)
    (counted.imp (fun _ _ h => h.1)) htotal).2 apart

theorem exists_fusedEvidence (hw : 0 < w) (ha : InUnit a) {counts : List (K × K)}
    (some : counts ≠ []) (sources : ∀ c ∈ counts, Source w a c) :
    ∃ total, fusedEvidence w a counts = .ok total ∧
      FromEvidence w a (totalEvidence counts) total := by
  have nonneg := total_nonneg (fun c hc => (sources c hc).nonneg)
  obtain ⟨total, made⟩ := exists_ofEvidence hw ha nonneg
  have htotal := (ofEvidence_eq_ok_iff hw ha nonneg).1 made
  exact ⟨total, fusedEvidence_eq_ok hw ha some sources htotal, htotal⟩

/-- Fusing sources adds up their evidence, in any order. So does fusing groups of them first and
what they make then, exactly where no two dogmatic opinions meet. -/
theorem fusion_adds_evidence (hw : 0 < w) (ha : InUnit a) {counts : List (K × K)}
    (some : counts ≠ []) (sources : ∀ c ∈ counts, Source w a c) :
    ∃ total,
      ofEvidence (counts.map Prod.fst).sum (counts.map Prod.snd).sum w a = .ok total ∧
      fusedEvidence w a counts = .ok total ∧
      (∀ counts', counts'.Perm counts → fusedEvidence w a counts' = .ok total) ∧
      ∀ groups : List (List (K × K)), groups.flatten.Perm counts → (∀ g ∈ groups, g ≠ []) →
        ∃ opinions, groups.mapM (fusedEvidence w a) = .ok opinions ∧
          (cumulativeFuse opinions = .ok total ↔ Apart opinions) := by
  obtain ⟨total, fused, htotal⟩ := exists_fusedEvidence hw ha some sources
  have nonneg := total_nonneg (fun c hc => (sources c hc).nonneg)
  refine ⟨total, (ofEvidence_eq_ok_iff hw ha nonneg).2 htotal, fused, ?_, ?_⟩
  · intro counts' same
    have some' : counts' ≠ [] := fun none => some (List.perm_nil.1 (none ▸ same.symm))
    exact fusedEvidence_eq_ok hw ha some' (fun c hc => sources c (same.mem_iff.1 hc))
      (totalEvidence_perm same ▸ htotal)
  · intro groups same filled
    have within : ∀ g ∈ groups, ∀ c ∈ g, Source w a c := by
      intro g hg c hc
      exact sources c (same.mem_iff.1 (List.mem_flatten_of_mem hg hc))
    obtain ⟨opinions, made, counted⟩ := exists_mapM_related
      (fun g hg => exists_fusedEvidence hw ha (filled g hg) (within g hg))
    have parts : groups.map totalEvidence ≠ [] := by
      intro none
      rw [List.map_eq_nil_iff] at none
      exact some (List.perm_nil.1 (none ▸ same).symm)
    have parts_nonneg : ∀ c ∈ groups.map totalEvidence, 0 ≤ c.1 ∧ 0 ≤ c.2 :=
      List.forall_mem_map.2 (fun g hg => total_nonneg (fun c hc => (within g hg c hc).nonneg))
    rw [← totalEvidence_perm same, totalEvidence_flatten] at htotal
    exact ⟨opinions, made, cumulativeFuse_eq_ok_iff hw ha parts parts_nonneg
      (List.forall₂_map_left_iff.2 counted) htotal⟩

theorem Source.of_uncertainty (hw : 0 < w) (ha : InUnit a) {c : K × K} (nonneg : 0 ≤ c.1 ∧ 0 ≤ c.2)
    (h : Scalar.epsilon < w / (c.1 + c.2 + w)) : Source w a c where
  nonneg := nonneg
  uncertain o made := by
    have counted := (ofEvidence_eq_ok_iff hw ha nonneg).1 made
    simp [isDogmatic, counted.uncertainty, h]

end

theorem fusion_adds_evidence_observations :
    ∃ total : Opinion ℚ, ofEvidence 3 3 2 (1 / 2) = .ok total ∧
      fusedEvidence 2 (1 / 2) [(3, 1), (0, 2)] = .ok total ∧ total.belief = 3 / 8 := by
  have hw : (0 : ℚ) < 2 := by norm_num
  have ha : InUnit (1 / 2 : ℚ) := by decide +kernel
  have sources : ∀ c ∈ [((3 : ℚ), (1 : ℚ)), (0, 2)], Source 2 (1 / 2) c := by
    simp only [List.forall_mem_cons]
    exact ⟨.of_uncertainty hw ha (by decide +kernel) (by decide +kernel),
      .of_uncertainty hw ha (by decide +kernel) (by decide +kernel), by simp⟩
  obtain ⟨total, made, fused, -⟩ := fusion_adds_evidence hw ha (by simp) sources
  have positive : ([((3 : ℚ), (1 : ℚ)), (0, 2)].map Prod.fst).sum = 3 := by norm_num
  have negative : ([((3 : ℚ), (1 : ℚ)), (0, 2)].map Prod.snd).sum = 3 := by norm_num
  rw [positive, negative] at made
  have counted := (ofEvidence_eq_ok_iff (e := (3, 3)) hw ha (by decide +kernel)).1 made
  refine ⟨total, made, fused, ?_⟩
  rw [counted.belief]
  norm_num

def many : ℚ := 7000000000000000

def opposed : List (List (ℚ × ℚ)) := [[(many, 0), (many, 0)], [(0, many), (0, many), (0, many)]]

/-- Each of these groups is dogmatic once it is fused, so fusing the groups averages them, although
the second one has observed more. -/
theorem grouping_shifts_belief :
    (∀ c ∈ opposed.flatten, Source 2 (1 / 2) c) ∧
      ∃ total averaged : Opinion ℚ, fusedEvidence 2 (1 / 2) opposed.flatten = .ok total ∧
        (opposed.mapM (fusedEvidence 2 (1 / 2)) >>= cumulativeFuse) = .ok averaged ∧
        total.belief < 9 / 20 ∧ 9 / 20 < averaged.belief := by
  have hw : (0 : ℚ) < 2 := by norm_num
  have ha : InUnit (1 / 2 : ℚ) := by decide +kernel
  have pro : Source 2 (1 / 2) (many, 0) :=
    .of_uncertainty hw ha (by decide +kernel) (by decide +kernel)
  have contra : Source 2 (1 / 2) (0, many) :=
    .of_uncertainty hw ha (by decide +kernel) (by decide +kernel)
  obtain ⟨total, fused, low⟩ := exists_eq_ok_of_any (x := fusedEvidence 2 (1 / 2) opposed.flatten)
    (p := fun o => decide (o.belief < 9 / 20)) (by decide +kernel)
  obtain ⟨averaged, made, high⟩ := exists_eq_ok_of_any
    (x := opposed.mapM (fusedEvidence 2 (1 / 2)) >>= cumulativeFuse)
    (p := fun o => decide (9 / 20 < o.belief)) (by decide +kernel)
  refine ⟨?_, total, averaged, fused, made, of_decide_eq_true low, of_decide_eq_true high⟩
  simp only [opposed, List.flatten_cons, List.flatten_nil, List.append_nil, List.cons_append,
    List.nil_append, List.forall_mem_cons]
  exact ⟨pro, pro, contra, contra, contra, by simp⟩

end Credence.Opinion
