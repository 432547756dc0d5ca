import Mathlib.Tactic.Linarith
import Credence.Proofs.Opinion.Wholeness

/-! # Trust at second hand

Trust in a witness that is itself discounted by the trust in whoever vouches for it is trust at
second hand, and a discount by it is a discount by both. So a chain of trust can be followed
backwards, from what its last witness says, or its trust can be gathered from its start and what
is said be discounted once: both arrive at the same opinion. Each discount leaves more uncertain.
-/

namespace Credence.Opinion
variable {K : Type} [Field K] [LinearOrder K] {x y : Opinion K}

theorem Whole.eq_of_parts (hx : Whole x) (hy : Whole y) (belief : x.belief = y.belief)
    (disbelief : x.disbelief = y.disbelief) (baseRate : x.baseRate = y.baseRate) : x = y := by
  refine Opinion.ext belief disbelief ?_ baseRate
  rw [Whole, belief, disbelief, ← hy] at hx
  exact add_left_cancel hx

variable [IsStrictOrderedRing K] {trust vouched subject z : Opinion K}

/-- A discount keeps the part of belief and of disbelief that trust believes in. -/
theorem components_of_discount {x y z : Opinion K} (made : discount x y = .ok z) :
    z.belief = x.belief * y.belief ∧ z.disbelief = x.belief * y.disbelief ∧
      z.baseRate = y.baseRate := by
  obtain ⟨belief, disbelief, -, baseRate⟩ := components_of_make made
  obtain ⟨hb, hd, -, ha, -⟩ := y.bounds
  have trust := x.bounds.belief
  rw [settled_of_inUnit (Scalar.inUnit_mul trust hb)] at belief
  rw [settled_of_inUnit (Scalar.inUnit_mul trust hd)] at disbelief
  rw [settled_of_inUnit ha] at baseRate
  exact ⟨belief, disbelief, baseRate⟩

theorem uncertainty_le_of_discount (hs : Whole subject) (hz : Whole z)
    (made : discount trust subject = .ok z) : subject.uncertainty ≤ z.uncertainty := by
  obtain ⟨belief, disbelief, -⟩ := components_of_discount made
  have certain : 0 ≤ subject.belief + subject.disbelief :=
    add_nonneg subject.bounds.belief.1 subject.bounds.disbelief.1
  have kept : trust.belief * (subject.belief + subject.disbelief) ≤
      subject.belief + subject.disbelief := mul_le_of_le_one_left certain trust.bounds.belief.2
  rw [mul_add, ← belief, ← disbelief] at kept
  rw [Whole] at hs hz
  linarith

/-- A discount by trust at second hand is a discount by the trust in the witness, and then by the
trust in whoever vouches for it. -/
theorem discount_discount (ht : Whole trust) (hv : Whole vouched) (hs : Whole subject) :
    (discount vouched subject >>= discount trust) =
      (discount trust vouched >>= fun gathered => discount gathered subject) := by
  obtain ⟨near, hn, wholeNear⟩ := exists_discount hv hs
  obtain ⟨gathered, hg, wholeGathered⟩ := exists_discount ht hv
  obtain ⟨twice, h2, wholeTwice⟩ := exists_discount ht wholeNear
  obtain ⟨once, h1, wholeOnce⟩ := exists_discount wholeGathered hs
  obtain ⟨bn, dn, an⟩ := components_of_discount hn
  obtain ⟨bg, -, -⟩ := components_of_discount hg
  obtain ⟨b2, d2, a2⟩ := components_of_discount h2
  obtain ⟨b1, d1, a1⟩ := components_of_discount h1
  have same : twice = once := by
    apply wholeTwice.eq_of_parts wholeOnce
    · rw [b2, bn, b1, bg, mul_assoc]
    · rw [d2, dn, d1, bg, mul_assoc]
    · rw [a2, an, a1]
  simp only [hn, hg, bind, Except.bind, h2, h1, same]

/-- What a chain of whole opinions arrives at, followed backwards. -/
theorem exists_foldrM_discount {trusts : List (Opinion K)} (whole : ∀ t ∈ trusts, Whole t)
    (hs : Whole subject) :
    ∃ z, trusts.foldrM discount subject = .ok z ∧ Whole z ∧
      subject.uncertainty ≤ z.uncertainty := by
  induction trusts with
  | nil => exact ⟨subject, rfl, hs, le_rfl⟩
  | cons trust rest ih =>
    obtain ⟨ht, behind⟩ := List.forall_mem_cons.1 whole
    obtain ⟨near, run, wholeNear, below⟩ := ih behind
    obtain ⟨z, made, hz⟩ := exists_discount ht wholeNear
    refine ⟨z, ?_, hz, below.trans (uncertainty_le_of_discount wholeNear hz made)⟩
    rw [List.foldrM_cons, run]
    exact made

/-- The trust along a chain can be gathered from its start, and the subject be discounted once. -/
theorem foldrM_discount_eq {rest : List (Opinion K)} (whole : ∀ t ∈ trust :: rest, Whole t)
    (hs : Whole subject) :
    (trust :: rest).foldrM discount subject =
      (rest.foldlM discount trust >>= fun gathered => discount gathered subject) := by
  induction rest generalizing trust with
  | nil => simp
  | cons next rest ih =>
    obtain ⟨ht, hn, behind⟩ := by simpa only [List.forall_mem_cons] using whole
    obtain ⟨near, run, wholeNear, -⟩ := exists_foldrM_discount behind hs
    obtain ⟨gathered, made, hg⟩ := exists_discount ht hn
    have further := ih (List.forall_mem_cons.2 ⟨hg, behind⟩)
    rw [List.foldrM_cons, run] at further
    calc (trust :: next :: rest).foldrM discount subject
        = (discount next near >>= discount trust) := by
          rw [List.foldrM_cons, List.foldrM_cons, run]
          rfl
      _ = (discount trust next >>= fun gathered => discount gathered near) :=
          discount_discount ht hn wholeNear
      _ = (rest.foldlM discount gathered >>= fun gathered => discount gathered subject) := by
          rw [made]
          exact further
      _ = ((next :: rest).foldlM discount trust >>= fun gathered => discount gathered subject) := by
          rw [List.foldlM_cons, made]
          rfl

theorem exists_gathered {rest : List (Opinion K)} (whole : ∀ t ∈ trust :: rest, Whole t)
    (hs : Whole subject) :
    ∃ z, (trust :: rest).foldrM discount subject = .ok z ∧
      (rest.foldlM discount trust >>= fun gathered => discount gathered subject) = .ok z ∧
      subject.uncertainty ≤ z.uncertainty := by
  obtain ⟨z, run, -, below⟩ := exists_foldrM_discount whole hs
  exact ⟨z, run, (foldrM_discount_eq whole hs).symm.trans run, below⟩

/-- Two discounts can be regrouped: what a witness says is discounted by the trust in the witness
and then by the trust in whoever vouches for it, or else by the one trust discounted by the other.
Whole opinions are discounted without fail, to the same opinion in both ways. One discount leaves
no less uncertain than there was. So it is for a chain of any length, whose trust is gathered from
its start. -/
theorem discounts_regroup (ht : Whole trust) (hv : Whole vouched) (hs : Whole subject) :
    (∃ z, (discount vouched subject >>= discount trust) = .ok z ∧
      (discount trust vouched >>= fun gathered => discount gathered subject) = .ok z) ∧
    (∃ z, discount trust subject = .ok z ∧ subject.uncertainty ≤ z.uncertainty) ∧
    ∀ rest : List (Opinion K), (∀ t ∈ rest, Whole t) →
      ∃ z, (trust :: rest).foldrM discount subject = .ok z ∧
        (rest.foldlM discount trust >>= fun gathered => discount gathered subject) = .ok z ∧
        subject.uncertainty ≤ z.uncertainty := by
  refine ⟨?_, ?_, fun rest behind => exists_gathered (List.forall_mem_cons.2 ⟨ht, behind⟩) hs⟩
  · obtain ⟨near, made, hn⟩ := exists_discount hv hs
    obtain ⟨z, again, -⟩ := exists_discount ht hn
    have run : (discount vouched subject >>= discount trust) = .ok z :=
      bind_eq_ok_iff.2 ⟨near, made, again⟩
    exact ⟨z, run, (discount_discount ht hv hs).symm.trans run⟩
  · obtain ⟨z, made, hz⟩ := exists_discount ht hs
    exact ⟨z, made, uncertainty_le_of_discount hs hz made⟩

def friend : Opinion ℚ := ⟨4 / 5, 1 / 10, 1 / 10, 1 / 2, by decide +kernel⟩

def stranger : Opinion ℚ := ⟨1 / 2, 1 / 2, 0, 1 / 2, by decide +kernel⟩

def rumour : Opinion ℚ := ⟨9 / 10, 1 / 10, 0, 1 / 5, by decide +kernel⟩

theorem discounts_regroup_rumour :
    (∃ z, (discount stranger rumour >>= discount friend) = .ok z ∧
      (discount friend stranger >>= fun gathered => discount gathered rumour) = .ok z ∧
      z.belief = 9 / 25) ∧
    ∃ z, [friend, stranger, friend].foldrM discount rumour = .ok z ∧
      ([stranger, friend].foldlM discount friend >>= fun gathered => discount gathered rumour) =
        .ok z ∧ 0 ≤ z.uncertainty := by
  have ht : Whole friend := by norm_num [Whole, friend]
  have hv : Whole stranger := by norm_num [Whole, stranger]
  have hs : Whole rumour := by norm_num [Whole, rumour]
  obtain ⟨⟨z, followed, gathered⟩, -, chains⟩ := discounts_regroup ht hv hs
  obtain ⟨same, made, belief⟩ := exists_eq_ok_of_any
    (x := discount stranger rumour >>= discount friend) (p := fun o => decide (o.belief = 9 / 25))
    (by decide +kernel)
  obtain rfl : z = same := Except.ok.inj (followed.symm.trans made)
  exact ⟨⟨z, followed, gathered, of_decide_eq_true belief⟩,
    chains [stranger, friend] (by simp [hv, ht])⟩

end Credence.Opinion
