import DataShape.Proofs.Json.Building
import DataShape.Value.Json

/-!
# Three ways from a text to a value

A text can be read straight into a value, or into a document that is then converted or folded.
Numbers are told apart by how they are written on one way and by what they fit on another. Fields
are written into a sorted list at once, or into a list in the order of the text first. None of this
makes a difference : conversion is folding (`Value.ofDocument_eq_fold`), members with one key may be
written over each other before they are sorted (`Fields.ofList_keyed`), and the reader goes the same
way for any two builders (`Json.read_map`). So the three ways lead to the same value or to the same
fault (`readings_agree`). They share the conversion of numerals to doubles, and it does not matter
which one that is.
-/

namespace DataShape

open Json (Document Numeral)

namespace Value

/-- A numeral has one number, whether it is looked at as it is written or by what it fits. -/
theorem builder_number (n : Numeral) : builder.number n = number (.ofNumeral n) := by
  cases n <;> rfl

theorem builder_object_keyed (ms : List (String × Value)) :
    builder.object (Keyed.ofList ms) = builder.object ms :=
  congrArg object (Fields.ofList_keyed ms)

mutual
/-- To convert a document is to fold it. -/
theorem ofDocument_eq_fold : ∀ d : Document, ofDocument d = d.fold builder
  | .null => rfl
  | .bool _ => rfl
  | .number n => (builder_number n).symm
  | .string _ => rfl
  | .array ds => congrArg array (ofDocumentItems_eq_fold ds)
  | .object ms => congrArg ofFields (ofDocumentMembers_eq_fold ms)

theorem ofDocumentItems_eq_fold : ∀ ds : List Document,
    ofDocumentItems ds = Document.foldItems builder ds
  | [] => rfl
  | d :: ds => by
    rw [ofDocumentItems, ofDocument_eq_fold d, ofDocumentItems_eq_fold ds, Document.foldItems]

theorem ofDocumentMembers_eq_fold : ∀ ms : List (String × Document),
    ofDocumentMembers ms = Document.foldMembers builder ms
  | [] => rfl
  | (k, d) :: ms => by
    rw [ofDocumentMembers, ofDocument_eq_fold d, ofDocumentMembers_eq_fold ms,
      Document.foldMembers]
end

section Readers

variable (convert : Json.Conversion) (text : String)

theorem read_eq_readByFolding : read convert text = readByFolding convert text :=
  Json.read_eq_fold convert builder_object_keyed text

theorem readThroughDocument_eq_readByFolding :
    readThroughDocument convert text = readByFolding convert text := by
  rw [readThroughDocument, readByFolding, funext ofDocument_eq_fold]

end Readers

end Value

/-- However numerals are converted to doubles, a text can be read as a value exactly if it can be
read as a document, and the value that is read is the one that the document is converted to and the
one that it is folded to. A text that cannot be read fails in the same way each time. -/
theorem readings_agree (convert : Json.Conversion) (text : String) :
    ((∃ v, Value.read convert text = .ok v) ↔
        ∃ d, Json.read convert Document.builder text = .ok d) ∧
      Value.readThroughDocument convert text = Value.read convert text ∧
      Value.readByFolding convert text = Value.read convert text := by
  have hfold := Value.read_eq_readByFolding convert text
  have hthrough := Value.readThroughDocument_eq_readByFolding convert text
  refine ⟨?_, hthrough.trans hfold.symm, hfold.symm⟩
  rw [hfold, Value.readByFolding]
  cases Json.read convert Document.builder text <;> simp [Except.map]

end DataShape
