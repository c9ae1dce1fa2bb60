import DataShape.Keyed
import DataShape.Decimal.Layout

/-!
# JSON documents

A document is the tree a JSON text stands for. Numerals are kept apart by how they
are written : a natural number of 64 bits, a negative one, or a double. The
members of an object keep the order of the text ; a repeated key keeps its first
place and takes its last value.

A `Builder` says what is made of each construct. Reading (`Json.read`) and folding
a document (`Document.fold`) both work for any builder, and `Document.builder`
makes documents.
-/

namespace DataShape

namespace Json

/-- A number in a document. -/
inductive Numeral where
  | natural (n : UInt64)
  | negative (n : Int64)
  | real (x : Binary64)
deriving DecidableEq, Repr

/-- What is made of each construct of a JSON text. -/
structure Builder (α : Type) where
  null : α
  bool : Bool → α
  number : Numeral → α
  string : String → α
  array : List α → α
  object : List (String × α) → α

/-- A JSON document. -/
inductive Document where
  | null
  | bool (b : Bool)
  | number (n : Numeral)
  | string (s : String)
  | array (items : List Document)
  | object (members : List (String × Document))
deriving Repr, Inhabited

namespace Document

/-- Documents themselves : the members of an object are written in turn. -/
def builder : Builder Document where
  null := .null
  bool := .bool
  number := .number
  string := .string
  array := .array
  object members := .object (Keyed.ofList members)

mutual
/-- Takes a document apart and builds something else from it. -/
def fold {α : Type} (b : Builder α) : Document → α
  | .null => b.null
  | .bool x => b.bool x
  | .number n => b.number n
  | .string s => b.string s
  | .array items => b.array (foldItems b items)
  | .object members => b.object (foldMembers b members)

def foldItems {α : Type} (b : Builder α) : List Document → List α
  | [] => []
  | d :: ds => fold b d :: foldItems b ds

def foldMembers {α : Type} (b : Builder α) : List (String × Document) → List (String × α)
  | [] => []
  | (k, d) :: ms => (k, fold b d) :: foldMembers b ms
end

mutual
/-- No object in the document has a key twice. -/
def Unique : Document → Prop
  | .array items => UniqueItems items
  | .object members => (Keyed.keys members).Nodup ∧ UniqueMembers members
  | _ => True

def UniqueItems : List Document → Prop
  | [] => True
  | d :: ds => Unique d ∧ UniqueItems ds

def UniqueMembers : List (String × Document) → Prop
  | [] => True
  | (_, d) :: ms => Unique d ∧ UniqueMembers ms
end

theorem uniqueItems_iff {ds : List Document} : UniqueItems ds ↔ ∀ d ∈ ds, d.Unique := by
  induction ds with
  | nil => simp [UniqueItems]
  | cons d ds ih => rw [UniqueItems, ih, List.forall_mem_cons]

theorem uniqueMembers_iff {ms : List (String × Document)} :
    UniqueMembers ms ↔ ∀ m ∈ ms, m.2.Unique := by
  induction ms with
  | nil => simp [UniqueMembers]
  | cons m ms ih => rw [UniqueMembers, ih, List.forall_mem_cons]

end Document

end Json

end DataShape
