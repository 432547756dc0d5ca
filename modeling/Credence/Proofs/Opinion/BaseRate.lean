import Mathlib.Algebra.Order.Field.Basic
import Credence.Proofs.Score.Binary64
import Credence.Proofs.Score.Evidence

/-! # Base rates that are no probabilities

There are two ways for a base rate into an opinion. Where components are given as they are, a base
rate outside the unit interval is refused. Where they are computed, they are settled against
rounding, and the base rate with them, although it is given and not computed: it is brought into the
unit interval, and the opinion is the one that the nearest base rate makes. Numbers of double
precision and exact ones do not differ in this.
-/

namespace Credence.Opinion
open Scalar (InUnit)

section
variable {R : Type} [Scalar R]

/-- The ways to build an opinion, each with its arguments other than the base rate. A score is
lifted to an opinion as a confidence is. -/
inductive Construction (R : Type) [Scalar R] where
  | components (belief disbelief uncertainty : R)
  | confidence (confidence uncertainty : R)
  | evidence (positive negative priorWeight : R)
  | vacuous
  | dogmatic (probability : R)
  | rebased (o : Opinion R)
  | sources (scores : List R) (uncertainty : R) (kind : Fusion)
  | chain (scores : List R) (uncertainty : R)

namespace Construction

def build : Construction R → R → Except (Error R) (Opinion R)
  | components b d u => make b d u
  | confidence c u => ofConfidence c u
  | evidence p n w => ofEvidence p n w
  | vacuous => Opinion.vacuous
  | dogmatic p => Opinion.dogmatic p
  | rebased o => o.withBaseRate
  | sources scores u kind => ofSources scores u kind
  | chain scores u => ofChain scores u

/-- Hands the base rate over as it is given. -/
def ChecksBaseRate : Construction R → Prop
  | components _ _ _ | vacuous | rebased _ => True
  | confidence _ _ | evidence _ _ _ | dogmatic _ | sources _ _ _ | chain _ _ => False

/-- Every base rate of the unit interval makes an opinion of the other arguments. -/
def Valid (c : Construction R) : Prop := ∀ a, InUnit a → ∃ o, c.build a = .ok o

end Construction

/-- What settling promises of scalars: a finite number is brought into the unit interval, whose
numbers are kept as they are. -/
structure Settles (R : Type) [Scalar R] : Prop where
  inUnit_clampUnit : ∀ a : R, Scalar.isFinite a = true → InUnit (Scalar.clampUnit a)
  settled_eq : ∀ a : R, InUnit a → settled a = a

variable {a : R}

/-- Three numbers that are masses with one base rate lack with another only what that lacks. -/
theorem fault?_eq_of_masses {b d u a₀ : R} (faultless : fault? b d u a₀ = none) :
    fault? b d u a = componentFault? .baseRate a := by
  simp only [fault?, Option.orElse_eq_orElse, Option.orElse_eq_or, Option.or_eq_none_iff]
    at faultless ⊢
  obtain ⟨belief, disbelief, uncertainty, -, sum⟩ := faultless
  simp only [belief, disbelief, uncertainty, sum, Option.none_or, Option.or_none]

theorem settle_clampUnit (h : Settles R) (finite : Scalar.isFinite a = true) (b d u : R) :
    settle b d u (Scalar.clampUnit a) = settle b d u a := by
  have kept : settled (Scalar.clampUnit a) = Scalar.clampUnit a :=
    h.settled_eq _ (h.inUnit_clampUnit a finite)
  have brought : settled a = Scalar.clampUnit a := if_pos finite
  rw [settle, kept, ← brought, settle]

theorem ofConfidence_clampUnit (h : Settles R) (finite : Scalar.isFinite a = true) (c u : R) :
    ofConfidence c u (Scalar.clampUnit a) = ofConfidence c u a := by
  simp only [ofConfidence, settle_clampUnit h finite]

namespace Construction
variable {c : Construction R}

theorem build_eq_make (checks : c.ChecksBaseRate) : ∃ b d u, c.build = make b d u := by
  cases c with
  | components b d u => exact ⟨b, d, u, rfl⟩
  | vacuous => exact ⟨0, 0, 1, rfl⟩
  | rebased o => exact ⟨o.belief, o.disbelief, o.uncertainty, rfl⟩
  | confidence | evidence | dogmatic | sources | chain => exact checks.elim

theorem build_of_outside (h : Settles R) (checks : c.ChecksBaseRate) (valid : c.Valid)
    (finite : Scalar.isFinite a = true) (outside : ¬ InUnit a) :
    ∃ b d u, c.build a = .error (.opinion ⟨b, d, u, a, .outside .baseRate a⟩) := by
  obtain ⟨b, d, u, same⟩ := build_eq_make checks
  have accepted := valid _ (h.inUnit_clampUnit a finite)
  rw [same, exists_make_iff] at accepted
  have fault : fault? b d u a = some (.outside .baseRate a) := by
    rw [fault?_eq_of_masses accepted]
    simp [componentFault?, finite, outside]
  exact ⟨b, d, u, same ▸ make_eq_error fault⟩

/-- Where the base rate is not checked, the nearest one of the unit interval stands in for it. -/
theorem build_clampUnit (h : Settles R) (settles : ¬ c.ChecksBaseRate)
    (finite : Scalar.isFinite a = true) : c.build (Scalar.clampUnit a) = c.build a := by
  cases c with
  | components | vacuous | rebased => exact absurd trivial settles
  | confidence c u => exact ofConfidence_clampUnit h finite c u
  | evidence p n w => simp only [build, ofEvidence, settle_clampUnit h finite]
  | dogmatic p => simp only [build, Opinion.dogmatic, settle_clampUnit h finite]
  | sources scores u kind => simp only [build, ofSources, ofConfidence_clampUnit h finite]
  | chain scores u => simp only [build, ofChain, ofConfidence_clampUnit h finite]

end Construction

end

section Exact
variable {K : Type} [Field K] [LinearOrder K] [IsStrictOrderedRing K] {a : K}

theorem settles_exact : Settles K where
  inUnit_clampUnit a _ := Scalar.clampUnit_inUnit a
  settled_eq _ := settled_of_inUnit

def Construction.Admissible : Construction K → Prop
  | components b d u => InUnit b ∧ InUnit d ∧ InUnit u ∧ |b + d + u - 1| ≤ tolerance
  | confidence c u => InUnit c ∧ InUnit u
  | evidence p n w => 0 ≤ p ∧ 0 ≤ n ∧ 0 < w
  | vacuous | rebased _ => True
  | dogmatic p => InUnit p
  | sources scores u _ | chain scores u => scores ≠ [] ∧ (∀ s ∈ scores, InUnit s) ∧ InUnit u

theorem exists_dogmatic_iff {p : K} (ha : InUnit a) :
    (∃ o, Opinion.dogmatic p a = .ok o) ↔ InUnit p := by
  constructor
  · rintro ⟨o, made⟩
    obtain ⟨_, checked, -⟩ := bind_eq_ok_iff.1 made
    exact checkScore_eq_ok_iff.1 (validated_eq_ok_iff.1 checked)
  · intro unit
    have checked : validated (checkScore .probability p) = .ok () :=
      validated_eq_ok_iff.2 (checkScore_eq_ok_iff.2 unit)
    obtain ⟨o, made, -⟩ := exists_settle_whole unit.1 (sub_nonneg.2 unit.2) le_rfl ha
      (by rw [add_zero, add_sub_cancel])
    exact ⟨o, bind_eq_ok_iff.2 ⟨(), checked, made⟩⟩

namespace Construction

theorem exists_build_iff {c : Construction K} (ha : InUnit a) :
    (∃ o, c.build a = .ok o) ↔ c.Admissible := by
  cases c with
  | components b d u =>
    refine exists_make_iff.trans (fault?_eq_none_iff.trans ?_)
    simp only [ha, true_and, Admissible]
  | confidence c u => exact exists_ofConfidence_iff ha
  | evidence p n w => exact exists_ofEvidence_iff ha
  | vacuous =>
    have faultless : fault? 0 0 1 a = none :=
      fault?_eq_none ⟨le_rfl, zero_le_one⟩ ⟨le_rfl, zero_le_one⟩ ⟨zero_le_one, le_rfl⟩ ha (by simp)
    exact iff_of_true (exists_make_iff.2 faultless) trivial
  | dogmatic p => exact exists_dogmatic_iff ha
  | rebased o =>
    obtain ⟨hb, hd, hu, -, sum⟩ := o.bounds
    have faultless := fault?_eq_none_iff.2 ⟨hb, hd, hu, ha, sum⟩
    exact iff_of_true (exists_make_iff.2 faultless) trivial
  | sources scores u kind => exact exists_ofSources_iff ha
  | chain scores u => exact exists_ofChain_iff ha

/-- With exact numbers the arguments are valid that the constructions ask for. -/
theorem valid_iff {c : Construction K} : c.Valid ↔ c.Admissible := by
  constructor
  · intro valid
    exact (exists_build_iff ⟨le_rfl, zero_le_one⟩).1 (valid 0 ⟨le_rfl, zero_le_one⟩)
  · intro admissible a ha
    exact (exists_build_iff ha).2 admissible

end Construction
end Exact

end Credence.Opinion

namespace Credence.Binary64
open Float.Model Float.Model.UnpackedFloat

theorem nonneg_of_not_neg {x : Float} (finite : Scalar.isFinite x = true)
    (above : ¬ x < (0 : Float)) : (0 : Float) ≤ x := by
  have finite : x.toModel.unpack.isFinite = true := finite
  rw [lt_iff] at above
  rw [le_iff]
  cases value : x.toModel.unpack with
  | zero s => rfl
  | finite s m e some =>
    cases s with
    | positive => rfl
    | negative =>
      rw [value] at above
      exact absurd rfl above
  | notANumber =>
    rw [value] at finite
    cases finite
  | infinity s =>
    rw [value] at finite
    cases finite

theorem settles : Opinion.Settles Float where
  inUnit_clampUnit x finite := by
    by_cases below : x < (0 : Float)
    · rw [clampUnit_eq, if_pos below]
      exact inUnit_zero
    · obtain ⟨q, held⟩ := exists_holds finite (nonneg_of_not_neg finite below)
      exact inUnit_clampUnit held
  settled_eq x unit := (if_pos (scoresFinite x unit)).trans (clampUnit_of_inUnit unit)

end Credence.Binary64

namespace Credence.Opinion
open Scalar (InUnit)

/-- Of arguments that are valid otherwise, a base rate outside the unit interval is refused exactly
where the construction checks it, and then it is named. Everywhere else it is corrected to the
nearest one of the unit interval. -/
theorem baseRate_refused_iff {R : Type} [Scalar R] (h : Settles R) {c : Construction R}
    (valid : c.Valid) {a : R} (finite : Scalar.isFinite a = true) (outside : ¬ InUnit a) :
    ((∃ e, c.build a = .error e) ↔ c.ChecksBaseRate) ∧
      (c.ChecksBaseRate →
        ∃ b d u, c.build a = .error (.opinion ⟨b, d, u, a, .outside .baseRate a⟩)) ∧
      (¬ c.ChecksBaseRate → c.build a = c.build (Scalar.clampUnit a)) := by
  have refused := fun checks => Construction.build_of_outside h (c := c) checks valid finite outside
  have corrected := fun settles => (Construction.build_clampUnit h (c := c) settles finite).symm
  refine ⟨⟨fun ⟨e, failed⟩ => ?_, fun checks => ?_⟩, refused, corrected⟩
  · by_contra settles
    obtain ⟨o, made⟩ := valid _ (h.inUnit_clampUnit a finite)
    rw [corrected settles, made] at failed
    cases failed
  · obtain ⟨b, d, u, failed⟩ := refused checks
    exact ⟨_, failed⟩

/-- Scores that are fused: the base rate is corrected. Total ignorance: it is refused, in double
precision as well. -/
theorem baseRate_refused_iff_sources :
    ofSources [9 / 10, 4 / 5] (1 / 5 : ℚ) .cumulative (3 / 2) =
        ofSources [9 / 10, 4 / 5] (1 / 5) .cumulative 1 ∧
      ∃ b d u : Float, Opinion.vacuous (1.5 : Float) =
        .error (.opinion ⟨b, d, u, 1.5, .outside .baseRate 1.5⟩) := by
  constructor
  · have valid : (Construction.sources [9 / 10, 4 / 5] (1 / 5 : ℚ) .cumulative).Valid :=
      Construction.valid_iff.2 ⟨by simp, by decide +kernel, by decide +kernel⟩
    have outside : ¬ InUnit (3 / 2 : ℚ) := by decide +kernel
    have nearest : Scalar.clampUnit (3 / 2 : ℚ) = 1 := by decide +kernel
    have corrected := (baseRate_refused_iff settles_exact valid rfl outside).2.2 id
    rwa [nearest] at corrected
  · have valid : (Construction.vacuous : Construction Float).Valid := by
      intro a ha
      have ignorant : fault? 0 0 1 (0 : Float) = none := by decide +kernel
      refine exists_make_iff.2 ((fault?_eq_of_masses ignorant).trans ?_)
      simp [componentFault?, Binary64.scoresFinite a ha, ha]
    have finite : Scalar.isFinite (1.5 : Float) = true := by decide +kernel
    have outside : ¬ InUnit (1.5 : Float) := by decide +kernel
    exact (baseRate_refused_iff Binary64.settles valid finite outside).2.1 trivial

/-- Arguments of double precision that make an opinion with the base rate one, and with a greater
one the same. -/
theorem baseRate_corrected_to_one :
    Scalar.isFinite (1.5 : Float) = true ∧ ¬ InUnit (1.5 : Float) ∧
      ∀ c ∈ [Construction.confidence (0.5 : Float) 0.5, .evidence 8 0 2, .dogmatic 0.9,
          .sources [0.9, 0.8] 0.2 .cumulative, .chain [0.9, 0.8] 0.2],
        (c.build 1).isOk = true ∧
          (c.build 1.5).toOption.any (fun o => o.baseRate == 1) = true := by
  decide +kernel

end Credence.Opinion
