import Credence.Proofs.Scalar.Binary64

/-! # The two forms of an assertion

An assertion is read from a document, is built from its parts, or is another one held with a new
confidence. Whichever way it is obtained, its confidence is a score and no keyword of it has the
name of a part. The form of documents puts the parts over the keywords and the form of records the
keywords over the parts, so the two forms are the same, and the assertion is read back from them.
-/

namespace Credence.Assertion
variable {R : Type} [Scalar R] {a : Assertion R}

/-- An assertion that is read from a document in name order. -/
def Decoded (a : Assertion R) : Prop :=
  ∃ document : Json R, document.Ordered ∧ read document = .ok a

theorem Decoded.legible (h : a.Decoded) : a.WellFormed ∧ a.Dated := by
  obtain ⟨document, ordered, made⟩ := h
  cases ordered with
  | object names parts =>
    exact ⟨wellFormed_of_readFields names parts made, dated_of_readFields made⟩
  | null | bool b | number n | text s | array parts => cases made

/-- An assertion is read from a document exactly where it is legible. -/
theorem decoded_iff (finite : ScoresFinite R) : a.Decoded ↔ a.WellFormed ∧ a.Dated :=
  ⟨Decoded.legible, fun ⟨formed, dated⟩ =>
    ⟨a.toJson, formed.ordered_toJson, formed.readFields_written dated finite⟩⟩

/-- The ways to an assertion. An instant that it is built with has to be read back from its text;
one that is read from a document always is. -/
inductive Obtained : Assertion R → Prop
  | decoded {a : Assertion R} (h : a.Decoded) : Obtained a
  | built {value : Option (Literal R)} {confidence : Option R} {source : Option String}
      {extractedAt : Option Instant} {method : Option String} {a : Assertion R}
      (dated : ∀ t, extractedAt = some t → Instant.parse t.print = .ok t)
      (made : build value confidence source extractedAt method = .ok a) : Obtained a
  | held {a b : Assertion R} {c : R} (first : Obtained a) (made : a.withConfidence c = .ok b) :
      Obtained b

/-- Assertions are legible however they are obtained: one that is built has no keywords, and a new
confidence is a score too and leaves the keywords and the instant as they are. -/
theorem Obtained.legible (h : a.Obtained) : a.WellFormed ∧ a.Dated := by
  induction h with
  | decoded h => exact h.legible
  | built dated made =>
    obtain ⟨score, l, -, rfl⟩ := build_eq_ok_iff.1 made
    exact ⟨.of_score rfl score, dated⟩
  | held first made ih =>
    obtain ⟨unit, rfl⟩ := withConfidence_eq_ok_iff.1 made
    exact ⟨ih.1.held unit, ih.2⟩

/-- However an assertion is obtained, its form of records is its form of documents, and it is read
back from it. -/
theorem forms_agree (finite : ScoresFinite R) (h : a.Obtained) :
    a.toRecord = a.toJson ∧ read a.toRecord = .ok a := by
  obtain ⟨formed, dated⟩ := h.legible
  exact ⟨formed.toRecord_eq_toJson finite, formed.read_toRecord dated finite⟩

def temperature : Json Float :=
  .ofFields [(Keyword.value, .number (.scalar 21.5)), (Keyword.confidence, .number (.whole 1)),
    (Keyword.extractedAt, .text "2017-01-01T00:59:60.25+01:00"), ("@unit", .text "Cel")]

/-- A temperature that is read is held with less confidence, and one is built from its parts. -/
theorem forms_agree_temperature :
    (∃ a b, read temperature = .ok a ∧ a.withConfidence 0.75 = .ok b ∧
      b.toRecord = b.toJson ∧ read b.toRecord = .ok b) ∧
    ∃ a, build (some (.number (.scalar 21.5))) (some (0.5 : Float)) (some "ex:probe")
        (some ⟨1483228799, 1250000000⟩) none = .ok a ∧
      a.toRecord = a.toJson ∧ read a.toRecord = .ok a := by
  constructor
  · obtain ⟨a, made⟩ := exists_eq_ok_of_isOk
      (show (read temperature).isOk = true by decide +kernel)
    have held := a.withConfidence_eq_ok (show Scalar.InUnit (0.75 : Float) by decide +kernel)
    have decoded : a.Decoded := ⟨temperature, by decide +kernel, made⟩
    exact ⟨a, _, made, held, forms_agree Binary64.scoresFinite (.held (.decoded decoded) held)⟩
  · obtain ⟨a, made⟩ := exists_eq_ok_of_isOk
      (show (build (some (.number (.scalar 21.5))) (some (0.5 : Float)) (some "ex:probe")
        (some ⟨1483228799, 1250000000⟩) none).isOk = true by decide +kernel)
    refine ⟨a, made, forms_agree Binary64.scoresFinite (.built (fun t same => ?_) made)⟩
    cases same
    rfl

end Credence.Assertion
