import Credence.Proofs.Resolution
import Credence.Proofs.Score.Binary64

/-! # Whom the surest and the latest choose

A contest fails exactly where there is no candidate or a confidence is no score. Otherwise the
surest strategy takes the first of the surest candidates, and the latest one takes the first of
those that are the surest of the latest. The winner is the candidate as it was given.
-/

namespace Credence
open Scalar (InUnit)

/-- Instants are ordered by their seconds, and those of one second by what has passed of it. -/
instance Instant.before_isStrictTotalOrder :
    IsStrictTotalOrder Instant (fun s t => s.before t = true) where
  irrefl s := by simp [Instant.before]
  trans s t u h h' := by
    simp only [Instant.before, Bool.or_eq_true, Bool.and_eq_true, decide_eq_true_eq, beq_iff_eq]
      at h h' ⊢
    omega
  trichotomous s t h h' := by
    obtain ⟨second, nano⟩ := s
    obtain ⟨second', nano'⟩ := t
    simp only [Instant.before, Bool.or_eq_true, Bool.and_eq_true, decide_eq_true_eq, beq_iff_eq]
      at h h'
    rw [Instant.mk.injEq]
    omega

namespace Resolution
variable {R : Type} [Scalar R]

def Candidate.NoSurer (c d : Candidate R) : Prop :=
  c.assertion.confidenceOrDefault ≤ d.assertion.confidenceOrDefault

/-- The first candidate is not later than the second, and not surer where both are from one
instant. -/
def Candidate.NoLater (c d : Candidate R) : Prop :=
  Prod.Lex (fun s t => Instant.before s t = true) (· ≤ ·)
    (c.assertion.extractedAtOrEpoch, c.assertion.confidenceOrDefault)
    (d.assertion.extractedAtOrEpoch, d.assertion.confidenceOrDefault)

def Candidate.Scored (c : Candidate R) : Prop := InUnit c.assertion.confidenceOrDefault

instance decidableUnits (assertions : List (Assertion R)) :
    Decidable (∀ a ∈ assertions, ∀ s, a.confidence = some s → InUnit s) :=
  decidable_of_iff
    (assertions.all (fun a => a.confidence.all (fun s => decide (InUnit s))) = true)
    (by simp [Option.all_eq_true])

variable [OrderedScores R]

theorem ranks_surer : Ranks Candidate.Scored Candidate.NoSurer (surer (R := R)) :=
  OrderedScores.ranks.comap (fun c : Candidate R => c.assertion.confidenceOrDefault)

theorem ranks_later : Ranks Candidate.Scored Candidate.NoLater (later (R := R)) :=
  (OrderedScores.ranks.lex Instant.before).comap (fun c : Candidate R =>
    (c.assertion.extractedAtOrEpoch, c.assertion.confidenceOrDefault))

variable {assertions : List (Assertion R)}

theorem scored_of_units
    (units : ∀ a ∈ assertions, ∀ s, a.confidence = some s → InUnit s) {c : Candidate R}
    (hc : c ∈ candidatesOf assertions) : c.Scored :=
  Assertion.confidenceOrDefault_inUnit OrderedScores.toScoresCombine.half
    (units _ (List.mem_of_getElem? (mem_candidatesOf.1 hc)))

/-- A strategy that keeps the leader of all candidates takes the first of the greatest of them. -/
theorem firstGreatest_of_resolve [NumberText R] {strategy : Strategy}
    {le : Candidate R → Candidate R → Prop} {beats : Candidate R → Candidate R → Bool}
    (ranks : Ranks Candidate.Scored le beats)
    (decides : ∀ first rest, ∃ reason, decideContest assertions first rest strategy =
      .ok ⟨(leader beats first rest).assertion, (leader beats first rest).index, assertions,
        strategy, reason⟩)
    {r : Resolution R} (h : resolve assertions strategy = .ok r) :
    FirstGreatest le Candidate.index (· ∈ candidatesOf assertions) ⟨r.winnerIndex, r.winner⟩ := by
  obtain ⟨first, rest, hs, decided⟩ := resolve_cases h
  have chosen : (⟨r.winnerIndex, r.winner⟩ : Candidate R) = leader beats first rest := by
    rcases decided with ⟨rfl, rfl⟩ | ⟨-, decided⟩
    · rfl
    · obtain ⟨reason, made⟩ := decides first rest
      rw [made, Except.ok.injEq] at decided
      rw [← decided]
  rw [chosen, hs]
  refine ranks.firstGreatest_leader ?_ ?_
  · intro c hc
    exact scored_of_units (fun a ha _ hs => inUnit_of_resolve h ha hs) (hs ▸ hc)
  · rw [← hs]
    exact pairwise_candidatesOf assertions

end Resolution

open Resolution
variable {R : Type} [Scalar R] [OrderedScores R] [NumberText R]

/-- A contest fails exactly where there is no assertion or the confidence of one is no score. The
surest strategy takes the assertion with the least position among those of greatest confidence, and
the latest one that with the least position among those of greatest time and confidence. Either
leaves it as it is. -/
theorem resolve_takes_first_greatest (assertions : List (Assertion R)) :
    (∀ s, (∃ e, resolve assertions s = .error e) ↔
      assertions = [] ∨ ∃ a ∈ assertions, ∃ c, a.confidence = some c ∧ ¬ InUnit c) ∧
    (∀ r, resolve assertions .highest = .ok r → assertions[r.winnerIndex]? = some r.winner ∧
      FirstGreatest Candidate.NoSurer Candidate.index (· ∈ candidatesOf assertions)
        ⟨r.winnerIndex, r.winner⟩) ∧
    ∀ r, resolve assertions .recency = .ok r → assertions[r.winnerIndex]? = some r.winner ∧
      FirstGreatest Candidate.NoLater Candidate.index (· ∈ candidatesOf assertions)
        ⟨r.winnerIndex, r.winner⟩ := by
  refine ⟨fun s => ⟨?_, ?_⟩, fun r h => ?_, fun r h => ?_⟩
  · rintro ⟨e, failed⟩
    by_contra sound
    simp only [not_or, not_exists, not_and, not_not] at sound
    obtain ⟨r, decided⟩ := exists_resolve OrderedScores.toScoresCombine s sound.1 sound.2
    rw [decided] at failed
    cases failed
  · intro faulty
    cases decided : resolve assertions s with
    | error e => exact ⟨e, rfl⟩
    | ok r =>
      rcases faulty with rfl | ⟨a, ha, c, hc, outside⟩
      · cases decided
      · exact absurd (inUnit_of_resolve decided ha hc) outside
  · have first := firstGreatest_of_resolve ranks_surer (fun _ _ => ⟨_, rfl⟩) h
    exact ⟨mem_candidatesOf.1 first.mem, first⟩
  · have first := firstGreatest_of_resolve ranks_later (fun _ _ => ⟨_, rfl⟩) h
    exact ⟨mem_candidatesOf.1 first.mem, first⟩

def given (name : String) (held : Option Float) (time : Option Instant) : Assertion Float :=
  ⟨.text name, held, none, time, none, []⟩

def rivals : List (Assertion Float) :=
  [given "Ada" (some 0.6) (some ⟨60, 0⟩), given "Ida" (some 0.9) none,
    given "Eda" (some 0.9) (some ⟨60, 0⟩)]

theorem resolve_takes_first_greatest_rivals :
    (∃ e, resolve [given "Ada" (some 1.3) none, given "Ida" none none] .weightedVote = .error e) ∧
      (∃ r, resolve rivals .highest = .ok r ∧ r.winnerIndex = 1 ∧
        FirstGreatest Candidate.NoSurer Candidate.index (· ∈ candidatesOf rivals)
          ⟨r.winnerIndex, r.winner⟩) ∧
      ∃ r, resolve rivals .recency = .ok r ∧ r.winnerIndex = 2 ∧
        FirstGreatest Candidate.NoLater Candidate.index (· ∈ candidatesOf rivals)
          ⟨r.winnerIndex, r.winner⟩ := by
  obtain ⟨-, surest, latest⟩ := resolve_takes_first_greatest rivals
  refine ⟨?_, ?_, ?_⟩
  · refine ((resolve_takes_first_greatest _).1 .weightedVote).2
      (.inr ⟨_, List.mem_cons_self, 1.3, rfl, ?_⟩)
    decide +kernel
  · obtain ⟨r, resolved, second⟩ := exists_eq_ok_of_any
      (show (resolve rivals .highest).toOption.any (fun r => r.winnerIndex == 1) = true by
        decide +kernel)
    exact ⟨r, resolved, beq_iff_eq.1 second, (surest r resolved).2⟩
  · obtain ⟨r, resolved, third⟩ := exists_eq_ok_of_any
      (show (resolve rivals .recency).toOption.any (fun r => r.winnerIndex == 2) = true by
        decide +kernel)
    exact ⟨r, resolved, beq_iff_eq.1 third, (latest r resolved).2⟩

end Credence
