import Mathlib.Tactic.FieldSimp
import Mathlib.Tactic.LinearCombination
import Credence.Proofs.Opinion.Masses

/-! # Fusion in groups

Three opinions can be fused from the left or from the right. Blends are regrouped freely, but the
average of two dogmatic opinions counts both alike, however much evidence has gone into either. So
the grouping does not matter where no two dogmatic opinions meet, and where they do it is a matter
of exceptions: an opinion that moves no other one, outer opinions that agree, and certain ones.
-/

namespace Credence.Opinion
open Scalar (InUnit)
variable {K : Type} [Field K] [LinearOrder K]

namespace Masses
variable {l m n : Masses K}

/-- No two dogmatic opinions meet when the third one is fused to the first two. -/
def Separate (l m n : Masses K) : Prop :=
  ¬ (l.Dogmatic ∧ m.Dogmatic) ∧ ¬ ((fused l m).Dogmatic ∧ n.Dogmatic)

theorem separate_of_uncertain (apart : ¬ (l.Dogmatic ∧ m.Dogmatic)) (last : ¬ n.Dogmatic) :
    Separate l m n :=
  ⟨apart, fun both => last both.2⟩

/-- What three opinions leave uncertain, all but one of them at a time. -/
def othersOfThree (l m n : Masses K) : K :=
  l.uncertainty * m.uncertainty * (1 - n.uncertainty) +
    l.uncertainty * n.uncertainty * (1 - m.uncertainty) + m.uncertainty * n.uncertainty

section Arithmetic
variable {p q r u v w : K}

theorem nested_total (h : u + v - u * v ≠ 0) :
    u * v / (u + v - u * v) + w - u * v / (u + v - u * v) * w =
      (u * v * (1 - w) + u * w * (1 - v) + v * w) / (u + v - u * v) := by
  field_simp
  ring

theorem nested_mass :
    (p * v + q * u) / (u + v - u * v) * w + r * (u * v / (u + v - u * v)) =
      (p * (v * w) + q * (u * w) + r * (u * v)) / (u + v - u * v) := by
  field_simp

end Arithmetic

/-- A blend of three, each of which counts by what the other two leave uncertain. -/
theorem blend_blend (h : either l m ≠ 0) :
    blend (blend l m) n =
      ⟨(l.belief * (m.uncertainty * n.uncertainty) + m.belief * (l.uncertainty * n.uncertainty) +
          n.belief * (l.uncertainty * m.uncertainty)) / othersOfThree l m n,
        (l.disbelief * (m.uncertainty * n.uncertainty) +
          m.disbelief * (l.uncertainty * n.uncertainty) +
          n.disbelief * (l.uncertainty * m.uncertainty)) / othersOfThree l m n,
        l.uncertainty * m.uncertainty * n.uncertainty / othersOfThree l m n⟩ := by
  unfold either at h
  ext
  case belief | disbelief =>
    simp only [blend, either, othersOfThree, nested_total h, nested_mass]
    rw [div_div_div_cancel_right₀ h]
  case uncertainty =>
    simp only [blend, either, othersOfThree, nested_total h]
    rw [div_mul_eq_mul_div, div_div_div_cancel_right₀ h]

theorem blend_assoc (h : either l m ≠ 0) (h' : either m n ≠ 0) :
    blend (blend l m) n = blend l (blend m n) := by
  rw [blend_comm l (blend m n), blend_blend h, blend_blend h']
  have total : othersOfThree m n l = othersOfThree l m n := by
    unfold othersOfThree
    ring
  ext <;> simp only [total] <;> congr 1 <;> ring

/-- The masses of three opinions do not tell from which side they were fused. -/
def Regrouped (l m n : Masses K) : Prop := fused (fused l m) n = fused l (fused m n)

theorem Regrouped.mirror (h : Regrouped l m n) : Regrouped n m l := by
  unfold Regrouped at h ⊢
  rw [fused_comm n m, fused_comm (fused m n) l, ← h, fused_comm m l, fused_comm n]

theorem regrouped_of_alike (l m : Masses K) : Regrouped l m l := by
  unfold Regrouped
  rw [fused_comm (fused l m) l, fused_comm m l]

variable [IsStrictOrderedRing K]

theorem regrouped_of_separate (hl : InUnit l.uncertainty) (hm : InUnit m.uncertainty)
    (hn : InUnit n.uncertainty) (left : Separate l m n) (right : Separate n m l) :
    Regrouped l m n := by
  obtain ⟨apart, apart'⟩ := left
  obtain ⟨near, near'⟩ := right
  rw [and_comm] at near near'
  rw [fused_comm n m] at near'
  unfold Regrouped
  rw [fused_of_apart apart', fused_of_apart near', fused_of_apart apart, fused_of_apart near]
  exact blend_assoc (either_pos hl hm apart).ne' (either_pos hm hn near).ne'

theorem regrouped_of_vacuous (hl : l.Shared) (hm : m.Shared) (hn : n.Shared)
    (some : l.uncertainty = 1 ∨ m.uncertainty = 1 ∨ n.uncertainty = 1) : Regrouped l m n := by
  unfold Regrouped
  rcases some with first | middle | last
  · rw [fused_comm l m, fused_comm l (fused m n), fused_eq_left_of_vacuous hl first,
      fused_eq_left_of_vacuous hl first]
  · rw [fused_comm m n, fused_eq_left_of_vacuous hm middle, fused_eq_left_of_vacuous hm middle]
  · rw [fused_eq_left_of_vacuous hn last, fused_eq_left_of_vacuous hn last]

theorem regrouped_of_certain_middle (hl : InUnit l.uncertainty) (hm : InUnit m.uncertainty)
    (certain : m.uncertainty = 0) (uncertain : ¬ n.Dogmatic) : Regrouped l m n := by
  have nothing : (fused l m).uncertainty = 0 := by
    refine le_antisymm ?_ (fused_uncertainty_nonneg hl hm)
    rw [fused_comm, ← certain]
    exact fused_uncertainty_le hm hl
  unfold Regrouped
  rw [fused_eq_left_of_certain certain uncertain, fused_eq_left_of_certain nothing uncertain]

theorem regrouped_of_certain_ends (first : l.uncertainty = 0) (last : n.uncertainty = 0)
    (uncertain : ¬ m.Dogmatic) : Regrouped l m n := by
  unfold Regrouped
  rw [fused_eq_left_of_certain first uncertain, fused_comm m n,
    fused_eq_left_of_certain last uncertain]

/-- Three dogmatic opinions are averaged twice, and the last one counts most. -/
theorem Regrouped.alike_of_dogmatic (h : Regrouped l m n) (hl : l.Shared) (hm : m.Shared)
    (hn : n.Shared) (first : l.Dogmatic) (middle : m.Dogmatic) (last : n.Dogmatic) : l = n := by
  unfold Regrouped at h
  rw [fused_of_dogmatic (first.fused_left hl.inUnit hm.inUnit) last,
    fused_of_dogmatic first (middle.fused_left hm.inUnit hn.inUnit),
    fused_of_dogmatic first middle, fused_of_dogmatic middle last] at h
  simp only [average, Scalar.halfSum, Nat.cast_ofNat, Masses.mk.injEq, and_true] at h
  obtain ⟨belief, disbelief⟩ := h
  refine hl.eq_of_parts hn ?_ ?_ <;> linarith

/-- An opinion that is not moved leaves nothing uncertain, unless the other one leaves all so. -/
theorem certain_or_vacuous_of_fused_eq_left (hm : InUnit m.uncertainty)
    (hn : InUnit n.uncertainty) (uncertain : ¬ n.Dogmatic) (same : fused m n = m) :
    m.uncertainty = 0 ∨ n.uncertainty = 1 := by
  have apart : ¬ (m.Dogmatic ∧ n.Dogmatic) := fun both => uncertain both.2
  have kept := congrArg uncertainty same
  rw [fused_of_apart apart] at kept
  simp only [blend] at kept
  rw [div_eq_iff (either_pos hm hn apart).ne', either] at kept
  have lost : m.uncertainty * m.uncertainty * (1 - n.uncertainty) = 0 := by
    linear_combination -kept
  rcases mul_eq_zero.1 lost with certain | vacuous
  · exact .inl (mul_self_eq_zero.1 certain)
  · exact .inr (sub_eq_zero.1 vacuous).symm

/-- Two dogmatic opinions on the left are averaged either way, the second one as the third one has
moved it. -/
theorem Regrouped.certain_or_vacuous (h : Regrouped l m n) (hm : m.Shared) (hn : n.Shared)
    (first : l.Dogmatic) (middle : m.Dogmatic)
    (uncertain : ¬ n.Dogmatic) : m.uncertainty = 0 ∨ n.uncertainty = 1 := by
  have apart : ¬ (m.Dogmatic ∧ n.Dogmatic) := fun both => uncertain both.2
  unfold Regrouped at h
  rw [fused_of_dogmatic first middle, fused_eq_left_of_certain rfl uncertain,
    fused_of_dogmatic first (middle.fused_left hm.inUnit hn.inUnit)] at h
  have same := average_cancel hm (hm.fused hn apart) h
  exact certain_or_vacuous_of_fused_eq_left hm.inUnit hn.inUnit uncertain same.symm

/-- A dogmatic opinion does not meet two others that are dogmatic together only. -/
theorem Regrouped.not_dogmatic_fused (h : Regrouped l m n) (hl : l.Shared) (hm : m.Shared)
    (hn : n.Shared) (first : l.Dogmatic) (middle : ¬ m.Dogmatic) (last : ¬ n.Dogmatic) :
    ¬ (fused m n).Dogmatic := by
  intro together
  have apart : ¬ (m.Dogmatic ∧ n.Dogmatic) := fun both => middle both.1
  have some := fused_uncertainty_pos hm.inUnit hn.inUnit apart (pos_of_not_dogmatic middle)
    (pos_of_not_dogmatic last)
  unfold Regrouped at h
  rw [fused_of_dogmatic first together] at h
  have certain : l.uncertainty = 0 := by
    by_contra left
    have positive := lt_of_le_of_ne hl.inUnit.1 (Ne.symm left)
    have further := fused_uncertainty_pos hl.inUnit hm.inUnit (fun both => middle both.2) positive
      (pos_of_not_dogmatic middle)
    have furthest := fused_uncertainty_pos (inUnit_fused hl.inUnit hm.inUnit) hn.inUnit
      (fun both => last both.2) further (pos_of_not_dogmatic last)
    exact furthest.ne' (congrArg uncertainty h)
  rw [fused_eq_left_of_certain certain middle, fused_eq_left_of_certain certain last] at h
  have same := average_cancel hl (hm.fused hn apart) ((average_self certain).trans h)
  exact some.ne' (same ▸ certain)

section Arithmetic
variable {p q v b c d : K}

theorem blend_total_pos (hp : 0 ≤ p) (hv : 0 < v) (hv' : v < 1) : 0 < p + v - p * v := by
  have rest : 0 ≤ p * (1 - v) := mul_nonneg hp (sub_nonneg.2 hv'.le)
  linarith

theorem eq_of_equal_loss (hp : 0 ≤ p) (hq : 0 ≤ q) (hv : 0 < v) (hv' : v < 1)
    (h : p * v / (p + v - p * v) + q = p + v * q / (v + q - v * q)) : p = q := by
  have first := (blend_total_pos hp hv hv').ne'
  have last := (blend_total_pos hq hv hv').ne'
  rw [add_comm q v, mul_comm q v] at last
  rw [div_add' _ _ _ first, add_div' _ _ _ last, div_eq_div_iff first last] at h
  have factors : (p - q) * (v * (p + q) + p * q * (1 - v)) * (1 - v) = 0 := by
    linear_combination -h
  rcases mul_eq_zero.1 factors with factors | vacuous
  · rcases mul_eq_zero.1 factors with same | none
    · exact sub_eq_zero.1 same
    · have low : 0 ≤ p * q * (1 - v) := mul_nonneg (mul_nonneg hp hq) (sub_nonneg.2 hv'.le)
      have sum : v * (p + q) = 0 := by
        linarith [mul_nonneg hv.le (add_nonneg hp hq)]
      have both : p + q = 0 := (mul_eq_zero.1 sum).resolve_left hv.ne'
      linarith
  · exact absurd (sub_eq_zero.1 vacuous).symm hv'.ne

theorem eq_of_equal_shift (hp : 0 < p) (hv : 0 < v) (hv' : v < 1)
    (h : (b * v + c * p) / (p + v - p * v) + d = b + (c * p + d * v) / (v + p - v * p)) :
    b = d := by
  have positive := (blend_total_pos hp.le hv hv').ne'
  rw [add_comm v p, mul_comm v p, div_add' _ _ _ positive, add_div' _ _ _ positive,
    div_left_inj' positive] at h
  have factors : (b - d) * (p * (1 - v)) = 0 := by
    linear_combination -h
  have some : p * (1 - v) ≠ 0 := (mul_pos hp (sub_pos.2 hv')).ne'
  exact sub_eq_zero.1 ((mul_eq_zero.1 factors).resolve_right some)

end Arithmetic

/-- Two dogmatic opinions around another one are averaged either way, one of them as that one has
moved it. -/
theorem Regrouped.alike_or_certain (h : Regrouped l m n) (hl : l.Shared) (hm : m.Shared)
    (hn : n.Shared) (first : l.Dogmatic) (middle : ¬ m.Dogmatic) (last : n.Dogmatic) :
    m.uncertainty = 1 ∨ l = n ∨ l.uncertainty = 0 ∧ n.uncertainty = 0 := by
  have apart : ¬ (l.Dogmatic ∧ m.Dogmatic) := fun both => middle both.2
  have apart' : ¬ (m.Dogmatic ∧ n.Dogmatic) := fun both => middle both.1
  have left := (hl.fused hm apart).whole
  have right := (hm.fused hn apart').whole
  unfold Regrouped at h
  rw [fused_of_dogmatic (first.fused_left hl.inUnit hm.inUnit) last,
    fused_of_dogmatic first (last.fused_right hm.inUnit hn.inUnit)] at h
  rw [fused_of_apart apart] at h left
  rw [fused_of_apart apart'] at h right
  have one := hl.whole
  have one' := hn.whole
  simp only [total, blend, average, Scalar.halfSum, Nat.cast_ofNat, Masses.mk.injEq, and_true,
    div_left_inj' (two_ne_zero : (2 : K) ≠ 0)] at h left right one one'
  obtain ⟨belief, disbelief⟩ := h
  refine or_iff_not_imp_left.2 (fun most => ?_)
  have some := pos_of_not_dogmatic middle
  have less := lt_of_le_of_ne hm.inUnit.2 most
  unfold either at *
  have same : l.uncertainty = n.uncertainty :=
    eq_of_equal_loss hl.inUnit.1 hn.inUnit.1 some less (by linarith)
  rcases hl.inUnit.1.eq_or_lt with certain | uncertain
  · exact .inr ⟨certain.symm, same ▸ certain.symm⟩
  · rw [← same] at belief disbelief
    exact .inl (hl.eq_of_parts hn (eq_of_equal_shift uncertain some less belief)
      (eq_of_equal_shift uncertain some less disbelief))

end Masses

/-- Where the masses of three fused opinions do not tell from which side they were fused. -/
inductive Regroups (x y z : Opinion K) : Prop
  /-- From neither side two dogmatic opinions meet. -/
  | apart (left : Apart [x, y, z]) (right : Apart [z, y, x])
  /-- One opinion leaves everything uncertain. -/
  | vacuous (some : x.uncertainty = 1 ∨ y.uncertainty = 1 ∨ z.uncertainty = 1)
  | alike (same : x.masses = z.masses)
  /-- The middle one leaves nothing uncertain, and one beside it is not dogmatic. -/
  | certainMiddle (certain : y.uncertainty = 0)
    (uncertain : ¬ (x.isDogmatic = true ∧ z.isDogmatic = true))
  /-- The outer ones leave nothing uncertain, and the one between them is not dogmatic. -/
  | certainEnds (first : x.uncertainty = 0) (last : z.uncertainty = 0)
    (uncertain : ¬ y.isDogmatic = true)

theorem Regroups.mirror {x y z : Opinion K} (h : Regroups x y z) : Regroups z y x := by
  cases h with
  | apart left right => exact .apart right left
  | vacuous some =>
    rcases some with first | middle | last
    · exact .vacuous (.inr (.inr first))
    · exact .vacuous (.inr (.inl middle))
    · exact .vacuous (.inl last)
  | alike same => exact .alike same.symm
  | certainMiddle certain uncertain =>
    exact .certainMiddle certain (fun both => uncertain both.symm)
  | certainEnds first last uncertain => exact .certainEnds last first uncertain

variable [IsStrictOrderedRing K]

section
variable {x y z : Opinion K} (hx : Whole x) (hy : Whole y) (hz : Whole z)
include hx hy

theorem apart_iff_separate :
    Apart [x, y, z] ↔ Masses.Separate x.masses y.masses z.masses := by
  obtain ⟨xy, made, -⟩ := Accounted.exists_cumulativePair (.inl hx) hy
  have kept := Accounted.masses_of_cumulativePair (.inl hx) (.inl hy) made
  simp only [Apart, ApartFrom, made, Except.ok.injEq, forall_eq', implies_true, and_true,
    Masses.Separate, ← kept, dogmatic_masses_iff]

include hz

theorem Regroups.regrouped (h : Regroups x y z) :
    Masses.Regrouped x.masses y.masses z.masses := by
  have ux := x.bounds.uncertainty
  have uy := y.bounds.uncertainty
  have uz := z.bounds.uncertainty
  cases h with
  | apart left right =>
    exact Masses.regrouped_of_separate ux uy uz ((apart_iff_separate hx hy).1 left)
      ((apart_iff_separate hz hy).1 right)
  | vacuous some =>
    exact Masses.regrouped_of_vacuous (shared_masses hx) (shared_masses hy) (shared_masses hz) some
  | alike same =>
    rw [same]
    exact Masses.regrouped_of_alike _ _
  | certainMiddle certain uncertain =>
    rw [← dogmatic_masses_iff, ← dogmatic_masses_iff] at uncertain
    rcases not_and_or.1 uncertain with first | last
    · exact (Masses.regrouped_of_certain_middle uz uy certain first).mirror
    · exact Masses.regrouped_of_certain_middle ux uy certain last
  | certainEnds first last uncertain =>
    rw [← dogmatic_masses_iff] at uncertain
    exact Masses.regrouped_of_certain_ends first last uncertain

theorem regroups_of_uncertain_last (h : Masses.Regrouped x.masses y.masses z.masses)
    (last : ¬ z.masses.Dogmatic) : Regroups x y z := by
  have sx := shared_masses hx
  have sy := shared_masses hy
  have sz := shared_masses hz
  by_cases first : x.masses.Dogmatic
  · by_cases middle : y.masses.Dogmatic
    · rcases h.certain_or_vacuous sy sz first middle last with certain | most
      · exact .certainMiddle certain (fun both => last (dogmatic_masses_iff.2 both.2))
      · exact .vacuous (.inr (.inr most))
    · have near : ¬ (Masses.fused z.masses y.masses).Dogmatic :=
        Masses.fused_comm y.masses z.masses ▸ h.not_dogmatic_fused sx sy sz first middle last
      exact .apart
        ((apart_iff_separate hx hy).2
          (Masses.separate_of_uncertain (fun both => middle both.2) last))
        ((apart_iff_separate hz hy).2 ⟨fun both => middle both.2, fun both => near both.1⟩)
  · exact .apart
      ((apart_iff_separate hx hy).2 (Masses.separate_of_uncertain (fun both => first both.1) last))
      ((apart_iff_separate hz hy).2 (Masses.separate_of_uncertain (fun both => last both.1) first))

theorem regroups_of_regrouped (h : Masses.Regrouped x.masses y.masses z.masses) :
    Regroups x y z := by
  by_cases last : z.masses.Dogmatic
  · by_cases first : x.masses.Dogmatic
    · have sx := shared_masses hx
      have sy := shared_masses hy
      have sz := shared_masses hz
      by_cases middle : y.masses.Dogmatic
      · exact .alike (h.alike_of_dogmatic sx sy sz first middle last)
      · rcases h.alike_or_certain sx sy sz first middle last with most | same | certain
        · exact .vacuous (.inr (.inl most))
        · exact .alike same
        · exact .certainEnds certain.1 certain.2 (fun d => middle (dogmatic_masses_iff.2 d))
    · exact (regroups_of_uncertain_last hz hy hx h.mirror first).mirror
  · exact regroups_of_uncertain_last hx hy hz h last

end

/-- Three whole opinions are fused without fail from either side. Both results have the same masses
exactly where no two dogmatic opinions meet on either way, or where it makes no odds that they do:
one of the three is vacuous, the outer two have the same masses, or nothing is uncertain in the
middle one or in both outer ones, next to one that is not dogmatic. -/
theorem fusion_regroups_iff {x y z : Opinion K} (hx : Whole x) (hy : Whole y) (hz : Whole z) :
    ∃ l r, (cumulativePair x y >>= fun xy => cumulativePair xy z) = .ok l ∧
      (cumulativePair y z >>= cumulativePair x) = .ok r ∧
      (l.masses = r.masses ↔ Regroups x y z) := by
  obtain ⟨xy, hxy, accounted⟩ := Accounted.exists_cumulativePair (.inl hx) hy
  obtain ⟨l, hl, -⟩ := accounted.exists_cumulativePair hz
  obtain ⟨yz, hyz, accounted'⟩ := Accounted.exists_cumulativePair (.inl hy) hz
  obtain ⟨r, hr, -⟩ := accounted'.exists_cumulativePair hx
  rw [cumulativePair_comm] at hr
  have left : l.masses = (x.masses.fused y.masses).fused z.masses := by
    rw [accounted.masses_of_cumulativePair (.inl hz) hl,
      Accounted.masses_of_cumulativePair (.inl hx) (.inl hy) hxy]
  have right : r.masses = x.masses.fused (y.masses.fused z.masses) := by
    rw [Accounted.masses_of_cumulativePair (.inl hx) accounted' hr,
      Accounted.masses_of_cumulativePair (.inl hy) (.inl hz) hyz]
  refine ⟨l, r, bind_eq_ok_iff.2 ⟨xy, hxy, hl⟩, bind_eq_ok_iff.2 ⟨yz, hyz, hr⟩, ?_⟩
  rw [left, right]
  exact ⟨regroups_of_regrouped hx hy hz, Regroups.regrouped hx hy hz⟩

def affirmed : Opinion ℚ := ⟨1, 0, 0, 1 / 2, by decide +kernel⟩

def denied : Opinion ℚ := ⟨0, 1, 0, 1 / 2, by decide +kernel⟩

def inclined : Opinion ℚ := ⟨2 / 3, 0, 1 / 3, 1 / 2, by decide +kernel⟩

theorem fusion_regroups_inclined :
    ∃ l r, (cumulativePair affirmed denied >>= fun xy => cumulativePair xy inclined) = .ok l ∧
      (cumulativePair denied inclined >>= cumulativePair affirmed) = .ok r ∧
      l.masses = r.masses := by
  have yes : Whole affirmed := by norm_num [Whole, affirmed]
  have no : Whole denied := by norm_num [Whole, denied]
  have half : Whole inclined := by norm_num [Whole, inclined]
  obtain ⟨l, r, left, right, same⟩ := fusion_regroups_iff yes no half
  exact ⟨l, r, left, right, same.2 (.certainMiddle rfl (by decide +kernel))⟩

/-- Of three certain opinions the one fused last counts as much as the other two. -/
theorem certain_opinions_not_regrouped :
    Whole affirmed ∧ Whole denied ∧
      ∃ l r, (cumulativePair affirmed denied >>= fun xy => cumulativePair xy denied) = .ok l ∧
        (cumulativePair denied denied >>= cumulativePair affirmed) = .ok r ∧
        l.belief = 1 / 4 ∧ r.belief = 1 / 2 := by
  obtain ⟨l, left, quarter⟩ := exists_eq_ok_of_any
    (x := cumulativePair affirmed denied >>= fun xy => cumulativePair xy denied)
    (p := fun o => decide (o.belief = 1 / 4)) (by decide +kernel)
  obtain ⟨r, right, half⟩ := exists_eq_ok_of_any
    (x := cumulativePair denied denied >>= cumulativePair affirmed)
    (p := fun o => decide (o.belief = 1 / 2)) (by decide +kernel)
  exact ⟨by norm_num [Whole, affirmed], by norm_num [Whole, denied], l, r, left, right,
    of_decide_eq_true quarter, of_decide_eq_true half⟩

end Credence.Opinion
