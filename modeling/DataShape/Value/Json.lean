import DataShape.Value.Basic
import DataShape.Json.Reader
import DataShape.Json.Writer

/-!
# Values as JSON

A value is written as the document it becomes (`Value.toDocument`) : `undefined`
as a special string, an integral number that fits 64 bits without a fraction, a
number that is not finite as `null`.

Three ways lead from a text to a value : reading it straight into a value
(`Value.read`), reading a document and converting it (`Value.ofDocument`), and
reading a document and folding it with the builder of values. They agree.
-/

namespace DataShape

open Json (Document Numeral Builder Fault)

/-! ## Writing -/

/-- A number as a document. -/
def Number.toDocument (a : Number) : Document :=
  match a with
  | unsigned n => .number (.natural n)
  | signed n => .number (ofSigned n)
  | float x =>
    match a.toInt64? with
    | some n => .number (ofSigned n)
    | none => if x.isFinite then .number (.real x) else .null
where
  /-- A signed integer is written by its sign. -/
  ofSigned (n : Int64) : Numeral :=
    if 0 ≤ n.toInt then .natural (UInt64.ofNat n.toInt.toNat) else .negative n

namespace Value

mutual
def toDocument : Value → Document
  | null => .null
  | bool b => .bool b
  | number n => n.toDocument
  | string s => .string s
  | array items => .array (toDocumentItems items)
  | object fields => .object (toDocumentFields fields)
  | undefined => .string "<undefined>"

def toDocumentItems : List Value → List Document
  | [] => []
  | v :: vs => toDocument v :: toDocumentItems vs

def toDocumentFields : List (String × Value) → List (String × Document)
  | [] => []
  | (k, v) :: fs => (k, toDocument v) :: toDocumentFields fs
end

/-- The text of a value without blanks. -/
def compact (v : Value) : String :=
  v.toDocument.compact

/-- The text of a value with a line for each item and field. -/
def pretty (v : Value) : String :=
  v.toDocument.pretty

end Value

/-! ## Reading -/

namespace Json.Numeral

/-- The numeral as an unsigned integer, if it is written as one. -/
def toUInt64? : Numeral → Option UInt64
  | natural n => some n
  | _ => none

/-- The numeral as a signed integer, if it is written as one that fits. -/
def toInt64? : Numeral → Option Int64
  | natural n => if n.toNat ≤ Int64.maxValue.toInt then some (Int64.ofInt n.toNat) else none
  | negative n => some n
  | real _ => none

def toBinary64 : Numeral → Binary64
  | natural n => .ofInt n.toNat
  | negative n => .ofInt n.toInt
  | real x => x

end Json.Numeral

/-- The number of a numeral : an unsigned integer before a signed one before a double. -/
def Number.ofNumeral (n : Numeral) : Number :=
  match n.toUInt64? with
  | some u => .unsigned u
  | none =>
    match n.toInt64? with
    | some i => .signed i
    | none => .float n.toBinary64

namespace Value

/-- Values, built construct by construct. -/
def builder : Builder Value where
  null := .null
  bool := .bool
  number
    | .natural n => .number (.unsigned n)
    | .negative n => .number (.signed n)
    | .real x => .number (.float x)
  string := .string
  array := .array
  object := .ofFields

mutual
/-- The value of a document. -/
def ofDocument : Document → Value
  | .null => null
  | .bool b => bool b
  | .number n => number (.ofNumeral n)
  | .string s => string s
  | .array items => array (ofDocumentItems items)
  | .object members => ofFields (ofDocumentMembers members)

def ofDocumentItems : List Document → List Value
  | [] => []
  | d :: ds => ofDocument d :: ofDocumentItems ds

def ofDocumentMembers : List (String × Document) → List (String × Value)
  | [] => []
  | (k, d) :: ms => (k, ofDocument d) :: ofDocumentMembers ms
end

section Reading

variable (convert : Json.Conversion) (text : String)

/-- The value of a text, built while the text is read. -/
def read : Except Fault Value :=
  Json.read convert builder text

/-- The value of a text, converted from its document. -/
def readThroughDocument : Except Fault Value :=
  (Json.read convert Document.builder text).map ofDocument

/-- The value of a text, folded from its document. -/
def readByFolding : Except Fault Value :=
  (Json.read convert Document.builder text).map fun d => d.fold builder

end Reading

end Value

end DataShape
