import Credence.Proofs.Decay.Curves
import Credence.Proofs.Scalar.Whole

/-! # Observations from the future

The time since an observation is counted in whole milliseconds before its sign is looked at, and
what is left of a millisecond is dropped on either side of zero. So an observation is refused where
it was made after now by a millisecond at least. One that is later than now by less counts as made
now. The seconds are divided out in double precision, but their sign survives that.
-/

namespace Credence
variable {R : Type} [Scalar R]

namespace Span

theorem milliseconds_cases (s : Span) :
    0 ≤ s.nanos ∧ s.milliseconds = s.nanos / 1000000 ∨
      s.nanos < 0 ∧ s.milliseconds = -(-s.nanos / 1000000) := by
  rcases lt_or_ge s.nanos 0 with below | above
  · right
    have mirrored : 0 ≤ -s.nanos := by omega
    rw [← Int.tdiv_eq_ediv_of_nonneg mirrored, Int.neg_tdiv, Int.neg_neg]
    exact ⟨below, rfl⟩
  · exact .inl ⟨above, Int.tdiv_eq_ediv_of_nonneg above⟩

theorem milliseconds_neg_iff (s : Span) : s.milliseconds < 0 ↔ s.nanos ≤ -1000000 := by
  rcases s.milliseconds_cases with ⟨sign, count⟩ | ⟨sign, count⟩ <;> omega

theorem milliseconds_eq_zero_iff (s : Span) :
    s.milliseconds = 0 ↔ -1000000 < s.nanos ∧ s.nanos < 1000000 := by
  rcases s.milliseconds_cases with ⟨sign, count⟩ | ⟨sign, count⟩ <;> omega

end Span

namespace Instant
variable {observed now : Instant}

def nanos (t : Instant) : ℤ := t.second * perSecond + t.nano

/-- Between instants of which none lies in an inserted second the time is the exact difference. -/
theorem nanosSince_eq (h : observed.inLeapSecond = false) (h' : now.inLeapSecond = false) :
    now.nanosSince observed = now.nanos - observed.nanos := by
  simp only [nanosSince, nanos, h, h', Bool.false_eq_true, if_false, ite_self]
  ring

theorem before_iff (h : observed.inLeapSecond = false) (h' : now.inLeapSecond = false) :
    now.before observed = true ↔ now.nanos < observed.nanos := by
  have part : observed.nano < 1000000000 := Nat.lt_of_not_le (of_decide_eq_false h)
  have part' : now.nano < 1000000000 := Nat.lt_of_not_le (of_decide_eq_false h')
  simp only [before, nanos, perSecond, Bool.or_eq_true, Bool.and_eq_true, decide_eq_true_eq,
    beq_iff_eq]
  omega

end Instant

/-- What is asked of numbers that count time: seconds have the sign of their milliseconds, as many
of them as fill a word of 64 bits. -/
class CountsTime (R : Type) [Scalar R] : Prop where
  zero : ((0 : ℤ) : R) / ((1000 : ℕ) : R) = 0
  past : ∀ m : ℤ, 0 ≤ m → m < 2 ^ 63 → Scalar.isFinite ((m : R) / ((1000 : ℕ) : R)) = true ∧
    ¬ (m : R) / ((1000 : ℕ) : R) < 0
  future : ∀ m : ℤ, m < 0 → (m : R) / ((1000 : ℕ) : R) < 0

instance countsTime_exact {K : Type} [Field K] [LinearOrder K] [IsStrictOrderedRing K] :
    CountsTime K where
  zero := by rw [Int.cast_zero, zero_div]
  past _ due _ := ⟨rfl, not_lt.2 (div_nonneg (Int.cast_nonneg due) (Nat.cast_nonneg 1000))⟩
  future _ early := div_neg_of_neg_of_pos (Int.cast_lt_zero.2 early)
    (Nat.cast_pos.2 (by decide : 0 < 1000))

namespace Binary64

/-- Milliseconds that a word of 64 bits can count are finite in seconds, and not below zero. -/
theorem exists_seconds {n : ℕ} (short : n < 2 ^ 63) :
    ∃ c, Holds ((n : Float) / ((1000 : ℕ) : Float)) c := by
  have most : (n : ℚ) ≤ 2 ^ 63 := by exact_mod_cast short.le
  rcases natCast_cases n with ⟨-, large⟩ | ⟨r, rounds, held⟩
  · exact absurd (large.trans_le most) (by norm_num)
  · have thousand : Holds ((1000 : ℕ) : Float) (1000 : ℕ) := holds_natCast (by norm_num)
    have quotient : r / (1000 : ℕ) ≤ 2 ^ 200 := by
      rw [div_le_iff₀ (by norm_num)]
      exact (rounds.le_of_le representable_two_pow most).trans (by norm_num)
    obtain ⟨c, -, held⟩ := exists_div held thousand (by norm_num) quotient
    exact ⟨c, held⟩

instance countsTime : CountsTime Float where
  zero := rfl
  past m due short := by
    obtain ⟨n, rfl⟩ := Int.eq_ofNat_of_zero_le due
    obtain ⟨c, held⟩ := exists_seconds (n := n) (by omega)
    constructor
    · exact Stands.isFinite held
    · change ¬ (n : Float) / ((1000 : ℕ) : Float) < 0
      rw [holds_lt_iff held holds_zero, not_lt]
      exact Stands.nonneg held
  future m early := intCast_div_lt_zero early (by decide) (by norm_num)

end Binary64

namespace Opinion
variable {o : Opinion R}

/-- The time is what is refused exactly where it is not finite or lies below zero. -/
theorem decay_invalidElapsed_iff {elapsed halfLife : R} {curve : R → R → R} :
    (∃ e, o.decay elapsed halfLife curve = .error (.validation (.invalidElapsed e))) ↔
      Scalar.isFinite elapsed = false ∨ elapsed < 0 := by
  by_cases refused : Scalar.isFinite elapsed = false ∨ elapsed < 0
  · have at_once : (!Scalar.isFinite elapsed || decide (elapsed < 0)) = true := by
      simpa using refused
    simp only [decay, at_once, if_true, refused, iff_true]
    exact ⟨elapsed, rfl⟩
  · have passed : (!Scalar.isFinite elapsed || decide (elapsed < 0)) = false := by
      simpa using refused
    simp only [decay, passed, refused, iff_false, not_exists]
    intro e
    split
    · next h => cases h
    · split
      · simp
      · split
        · exact make_ne_validation _ _ _ _ _
        · simp

variable [CountsTime R] {observed now : Instant}

theorem decaySince_refused_iff (halfLife : Span) (curve : R → R → R)
    (counted : (Span.between observed now).milliseconds < 2 ^ 63) :
    (∃ e, o.decaySince observed now halfLife curve = .error (.validation (.invalidElapsed e))) ↔
      now.nanosSince observed ≤ -1000000 := by
  change _ ↔ (Span.between observed now).nanos ≤ -1000000
  rw [decaySince, decay_invalidElapsed_iff, ← Span.milliseconds_neg_iff, Span.seconds]
  generalize (Span.between observed now).milliseconds = m at counted ⊢
  rcases lt_or_ge m 0 with early | due
  · exact iff_of_true (.inr (CountsTime.future m early)) early
  · obtain ⟨finite, above⟩ := CountsTime.past (R := R) m due counted
    refine iff_of_false ?_ (not_lt.2 due)
    rintro (infinite | early)
    · exact Bool.false_ne_true (infinite.symm.trans finite)
    · exact above early

/-- An observation is refused for its time exactly where it was made after now by a millisecond at
least. If it was made within less than a millisecond of now, on either side, the opinion is what it
is now. Outside inserted seconds the time between is exact, and negative where the observation was
made after now; so one made after now by less than a millisecond is not refused. -/
theorem future_observation_refused_iff (o : Opinion R) (halfLife : Span) (curve : R → R → R)
    (counted : (Span.between observed now).milliseconds < 2 ^ 63) :
    ((∃ e, o.decaySince observed now halfLife curve =
        .error (.validation (.invalidElapsed e))) ↔ now.nanosSince observed ≤ -1000000) ∧
      (-1000000 < now.nanosSince observed → now.nanosSince observed < 1000000 →
        o.decaySince observed now halfLife curve = o.decay 0 halfLife.seconds curve) ∧
      (observed.inLeapSecond = false → now.inLeapSecond = false →
        now.nanosSince observed = now.nanos - observed.nanos ∧
          (now.before observed = true ↔ now.nanos < observed.nanos)) := by
  refine ⟨decaySince_refused_iff halfLife curve counted, fun above below => ?_, fun h h' => ?_⟩
  · have none : (Span.between observed now).milliseconds = 0 :=
      (Span.milliseconds_eq_zero_iff _).2 ⟨above, below⟩
    rw [decaySince, Span.seconds, none, CountsTime.zero]
  · exact ⟨Instant.nanosSince_eq h h', Instant.before_iff h h'⟩

def survey : Opinion Float := ⟨0.6, 0.2, 0.2, 0.3, by decide +kernel⟩

def midnight : Instant := ⟨1709251200, 0⟩

theorem future_observation_refused_iff_millisecond :
    (∃ e, survey.decaySince ⟨1709251200, 1000000⟩ midnight ⟨3600000000000⟩ DecayCurve.step.factor =
        .error (.validation (.invalidElapsed e))) ∧
      survey.decaySince ⟨1709251200, 999999⟩ midnight ⟨3600000000000⟩ DecayCurve.step.factor =
        survey.decay 0 (Span.seconds ⟨3600000000000⟩) DecayCurve.step.factor := by
  constructor
  · exact (future_observation_refused_iff survey _ _ (by decide)).1.2 (by decide)
  · exact (future_observation_refused_iff survey _ _ (by decide)).2.1 (by decide) (by decide)

theorem next_nanosecond_accepted :
    midnight.before ⟨1709251200, 1⟩ = true ∧
      (survey.decaySince ⟨1709251200, 1⟩ midnight ⟨3600000000000⟩ DecayCurve.step.factor).isOk =
        true := by
  decide +kernel

end Opinion
end Credence
