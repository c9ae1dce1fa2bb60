import DataShape.Descriptor.Document
import DataShape.Json.Position
import DataShape.Json.Reader

/-!
# Descriptors as text

A descriptor is read from a JSON text through its document (`read`). It may also be
read as part of data that are converted as they are read (`readAsData`). Then a
document that is no descriptor is an error in the data, which comes to light before
anything that stands behind the document does.
-/

namespace DataShape.Descriptor

variable (convert : Json.Conversion) (text : String)

/-- Why a text is no descriptor. -/
inductive TextError where
  | json (fault : Json.Fault)
  | descriptor (error : ReadError)

/-- The descriptor of a text. -/
def read : Except TextError Descriptor :=
  match Json.read convert Json.Document.builder text with
  | .error fault => .error (.json fault)
  | .ok d => (ofDocument d).mapError .descriptor

/-- Why data are no descriptor. -/
inductive DataError where
  | json (fault : Json.Fault)
  | data (message : String)

/-- The descriptor that data stand for. -/
def readAsData : Except DataError Descriptor := do
  let (document, rest) ←
    (Json.readFront convert Json.Document.builder Json.depthLimit text.toList).mapError .json
  let d ← (ofDocument document).mapError fun e => .data (Json.settled e.message)
  (Json.expectEnd rest).mapError .json
  return d

end DataShape.Descriptor
