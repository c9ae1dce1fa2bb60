import DataShape.Checker.Basic
import DataShape.NameSet
import DataShape.Text.Blank

/-!
# Descriptors

A descriptor is a checker written as data. It refers to other checkers by name, so
a set of descriptors may be recursive.

The references that matter for cycles are the unguarded ones (`unguarded`) : those
that are asked about the very value the descriptor is asked about, because no
object property and no array lies between.
-/

namespace DataShape

/-- A checker written as data. -/
inductive Descriptor where
  | kind (p : Primitive)
  | literal (expected : String)
  | any (alternatives : List Descriptor)
  | nullable (inner : Descriptor)
  | array (element : Descriptor)
  /-- Declared keys in the order of the document. -/
  | object (properties : List (String × Descriptor))
  | ref (name : String)
deriving Repr, Inhabited

namespace Descriptor

mutual
/-- Whether two descriptors are the same, order included. -/
def equal : Descriptor → Descriptor → Bool
  | kind p, kind q => p == q
  | literal s, literal t => s == t
  | any as, any bs => equalItems as bs
  | nullable a, nullable b => equal a b
  | array a, array b => equal a b
  | object ps, object qs => equalProperties ps qs
  | ref s, ref t => s == t
  | _, _ => false

def equalItems : List Descriptor → List Descriptor → Bool
  | [], [] => true
  | a :: as, b :: bs => equal a b && equalItems as bs
  | _, _ => false

def equalProperties : List (String × Descriptor) → List (String × Descriptor) → Bool
  | [], [] => true
  | (k, a) :: ps, (l, b) :: qs => k == l && equal a b && equalProperties ps qs
  | _, _ => false
end

mutual
/-- A descriptor that can be written as a document and read again : at every depth the declared
keys are distinct and no reference has a blank name. -/
def WellFormed : Descriptor → Prop
  | any ds => WellFormedItems ds
  | nullable d => WellFormed d
  | array d => WellFormed d
  | object ps => (Keyed.keys ps).Nodup ∧ WellFormedProperties ps
  | ref name => Text.isBlank name = false
  | _ => True

def WellFormedItems : List Descriptor → Prop
  | [] => True
  | d :: ds => WellFormed d ∧ WellFormedItems ds

def WellFormedProperties : List (String × Descriptor) → Prop
  | [] => True
  | (_, d) :: ps => WellFormed d ∧ WellFormedProperties ps
end

/-! ## References -/

mutual
/-- All references in a descriptor, in the order of the document. -/
def allReferences : Descriptor → List String
  | ref name => [name]
  | any ds => allReferencesItems ds
  | nullable d => allReferences d
  | array d => allReferences d
  | object ps => allReferencesProperties ps
  | _ => []

def allReferencesItems : List Descriptor → List String
  | [] => []
  | d :: ds => allReferences d ++ allReferencesItems ds

def allReferencesProperties : List (String × Descriptor) → List String
  | [] => []
  | (_, d) :: ps => allReferences d ++ allReferencesProperties ps
end

mutual
/-- The references that are asked about the same value, in the order of the document. -/
def openReferences : Descriptor → List String
  | ref name => [name]
  | any ds => openReferencesItems ds
  | nullable d => openReferences d
  | _ => []

def openReferencesItems : List Descriptor → List String
  | [] => []
  | d :: ds => openReferences d ++ openReferencesItems ds
end

/-- The names a descriptor refers to. -/
def references (d : Descriptor) : List String :=
  NameSet.ofList d.allReferences

/-- The names a descriptor refers to without an object property or an array in between. -/
def unguarded (d : Descriptor) : List String :=
  NameSet.ofList d.openReferences

end Descriptor

end DataShape
