import Credence.Proofs.Graph.ReadBack
import Credence.Proofs.Scalar.Binary64

/-! # Decoding undoes encoding

What is read from a document in name order can be written and read again without any change, be it
a property value, a node or a graph with member nodes. Spellings of numbers, the order of types,
further keywords and instants are all kept.
-/

namespace Credence
variable {R : Type} [Scalar R]

/-- Whatever is read from a document is read back from what is written for it. -/
theorem decoding_undoes_encoding (finite : ScoresFinite R) {document : Json R}
    (ordered : document.Ordered) :
    (∀ v, PropertyValue.ofJson document = .ok v → PropertyValue.ofJson v.toJson = .ok v) ∧
      (∀ n, Node.ofJson document = .ok n → Node.ofJson n.toJson = .ok n) ∧
      ∀ fields g, document = .object fields → Fields.has fields Keyword.members = true →
        Graph.ofJson document = .ok g → Graph.ofJson g.toJson = .ok g := by
  refine ⟨fun v made => ?_, fun n made => ?_, fun fields g same listed made => ?_⟩
  · exact PropertyValue.ofJson_toJson finite (HeldByReading.legible.value ordered made)
  · exact Node.ofJson_toJson finite (HeldByReading.legible.nested ordered made)
  · subst same
    have decoded : g.Decoded := ⟨fields, ordered, listed, made⟩
    exact decoded.wellFormed.ofJson_toJson decoded.dated finite

def nameDocument : Json Float :=
  .ofFields [(Keyword.value, .text "Ada"), (Keyword.confidence, .number (.whole 1)),
    (Keyword.extractedAt, .text "2017-01-01T00:59:60.25+01:00"), ("@lang", .text "en")]

def nodeDocument : Json Float :=
  .ofFields [(Keyword.id, .text "ex:ada"), (Keyword.type, Json.texts ["Person", "Author"]),
    (Keyword.confidence, .number (.scalar 0.5)), ("name", nameDocument),
    ("works", .array [.number (.whole 1), .number (.scalar 1.0)])]

def graphDocument : Json Float := .ofFields [(Keyword.members, .array [nodeDocument])]

theorem ordered_nodeDocument : nodeDocument.Ordered := by
  have name : nameDocument.Ordered := by
    refine Json.ordered_ofFields ?_
    simp only [List.forall_mem_cons]
    exact ⟨.text _, .number _, .text _, .text _, by simp⟩
  refine Json.ordered_ofFields ?_
  simp only [List.forall_mem_cons]
  refine ⟨.text _, .array ?_, .number _, name, .array ?_, by simp⟩
  · exact List.forall_mem_map.2 (fun word _ => .text word)
  · simp only [List.forall_mem_cons]
    exact ⟨.number _, .number _, by simp⟩

theorem decoding_undoes_encoding_ada :
    (∃ v, PropertyValue.ofJson nodeDocument = .ok v ∧ PropertyValue.ofJson v.toJson = .ok v) ∧
      (∃ n, Node.ofJson nodeDocument = .ok n ∧ Node.ofJson n.toJson = .ok n) ∧
      ∃ g, Graph.ofJson graphDocument = .ok g ∧ Graph.ofJson g.toJson = .ok g := by
  have members : graphDocument.Ordered :=
    Json.ordered_ofFields (List.forall_mem_singleton.2
      (.array (List.forall_mem_singleton.2 ordered_nodeDocument)))
  obtain ⟨v, value⟩ := exists_eq_ok_of_isOk
    (show (PropertyValue.ofJson nodeDocument).isOk = true by decide +kernel)
  obtain ⟨n, node⟩ := exists_eq_ok_of_isOk
    (show (Node.ofJson nodeDocument).isOk = true by decide +kernel)
  obtain ⟨g, graph⟩ := exists_eq_ok_of_isOk
    (show (Graph.ofJson graphDocument).isOk = true by decide +kernel)
  obtain ⟨values, nodes, -⟩ := decoding_undoes_encoding Binary64.scoresFinite ordered_nodeDocument
  obtain ⟨-, -, graphs⟩ := decoding_undoes_encoding Binary64.scoresFinite members
  exact ⟨⟨v, value, values v value⟩, ⟨n, node, nodes n node⟩, g, graph, graphs _ g rfl rfl graph⟩

end Credence
