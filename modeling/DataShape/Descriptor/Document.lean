import DataShape.Descriptor.Basic
import DataShape.Json.Writer

/-!
# Descriptors as documents

A descriptor is written as a string that names a primitive checker or as an object
with one member, whose key names a combinator and whose value is its operand.
`ofDocument` reads exactly the documents that `toDocument` writes for well-formed
descriptors.

What cannot be read has a first faulty place : a route from the root of the
document by keys and indices, with everything before it in the order of the
document in order. An error carries that route and the cause.
-/

namespace DataShape

open Json (Document)

/-- The name of a primitive checker in a document. -/
def Primitive.name : Primitive → String
  | string => "string"
  | number => "number"
  | boolean => "boolean"
  | null => "null"
  | unknown => "unknown"

/-- The primitive checker of a name. -/
def Primitive.ofName? (s : String) : Option Primitive :=
  if s = "string" then some string
  else if s = "number" then some number
  else if s = "boolean" then some boolean
  else if s = "null" then some null
  else if s = "unknown" then some unknown
  else none

/-- A route as text : a dollar sign for the root, then a point and a key or an index in brackets
for each step. -/
def Path.chars (p : Path) : List Char :=
  '$' :: p.flatMap fun s => match s with
    | .key k => '.' :: k.toList
    | .index i => '[' :: (Text.digits i ++ [']'])

def Path.text (p : Path) : String :=
  String.ofList (Path.chars p)

namespace Descriptor

/-! ## Writing -/

mutual
def toDocument : Descriptor → Document
  | kind p => .string p.name
  | literal s => .object [("literal", .string s)]
  | any ds => .object [("any", .array (toDocumentItems ds))]
  | nullable d => .object [("nullable", toDocument d)]
  | array d => .object [("array", toDocument d)]
  | object ps => .object [("object", .object (Keyed.ofList (toDocumentProperties ps)))]
  | ref name => .object [("ref", .string name)]

def toDocumentItems : List Descriptor → List Document
  | [] => []
  | d :: ds => toDocument d :: toDocumentItems ds

def toDocumentProperties : List (String × Descriptor) → List (String × Document)
  | [] => []
  | (k, d) :: ps => (k, toDocument d) :: toDocumentProperties ps
end

/-! ## Faults -/

/-- What is wrong at a place. -/
inductive Fault where
  /-- A string that names no primitive checker. -/
  | unknownKind (name : String)
  /-- Neither a string nor an object where a descriptor is due. -/
  | notADescriptor (found : Document)
  /-- An object without exactly one member. -/
  | notOneMember
  /-- The one key names no combinator. -/
  | unknownCombinator (key : String)
  | literalOperand
  | anyOperand
  | objectOperand
  | refOperand

/-- The first faulty place of a document and what is wrong there. -/
structure ReadError where
  route : Path
  fault : Fault

def Fault.message : Fault → String
  | unknownKind name => "unknown kind `" ++ name ++ "`"
  | notADescriptor found =>
    "expected a kind name or a combinator, found `" ++ found.compact ++ "`"
  | notOneMember => "expected exactly one of literal, any, nullable, array, object, ref"
  | unknownCombinator key => "unknown combinator `" ++ key ++ "`"
  | literalOperand => "literal expects a string"
  | anyOperand => "any expects a list of descriptors"
  | objectOperand => "object expects a map of properties"
  | refOperand => "ref expects a non-empty name"

/-- The text of an error, with the place before or after the cause. -/
def ReadError.message (e : ReadError) : String :=
  match e.fault with
  | .unknownKind _ => e.fault.message ++ " at " ++ e.route.text
  | _ => "invalid descriptor at " ++ e.route.text ++ ": " ++ e.fault.message

/-- A fault at the root. -/
def faulty {α : Type} (f : Fault) : Except ReadError α :=
  .error ⟨[], f⟩

/-- What is read one step further down, its errors seen from above. -/
def under {α : Type} (s : Step) (x : Except ReadError α) : Except ReadError α :=
  x.mapError fun e => ⟨s :: e.route, e.fault⟩

/-! ## Reading -/

mutual
/-- The descriptor of a document. -/
def ofDocument : Document → Except ReadError Descriptor
  | .string s =>
    match Primitive.ofName? s with
    | some p => .ok (kind p)
    | none => faulty (.unknownKind s)
  | .object [(key, operand)] =>
    under (.key key) <|
      if key = "literal" then
        match operand with
        | .string s => .ok (literal s)
        | _ => faulty .literalOperand
      else if key = "any" then
        match operand with
        | .array items => (ofItems 0 items).map any
        | _ => faulty .anyOperand
      else if key = "nullable" then (ofDocument operand).map nullable
      else if key = "array" then (ofDocument operand).map array
      else if key = "object" then
        match operand with
        | .object members => (ofMembers members).map object
        | _ => faulty .objectOperand
      else if key = "ref" then
        match operand with
        | .string name => if Text.isBlank name then faulty .refOperand else .ok (ref name)
        | _ => faulty .refOperand
      else faulty (.unknownCombinator key)
  | .object _ => faulty .notOneMember
  | d => faulty (.notADescriptor d)

/-- The descriptors of a list from index `i` on. -/
def ofItems (i : Nat) : List Document → Except ReadError (List Descriptor)
  | [] => .ok []
  | d :: ds => do
    let x ← under (.index i) (ofDocument d)
    let xs ← ofItems (i + 1) ds
    return x :: xs

/-- The properties of an object. -/
def ofMembers : List (String × Document) → Except ReadError (List (String × Descriptor))
  | [] => .ok []
  | (k, d) :: ms => do
    let x ← under (.key k) (ofDocument d)
    let xs ← ofMembers ms
    return (k, x) :: xs
end

end Descriptor

end DataShape
