import DataShape.DeclaredKey
import DataShape.Value.Path

/-!
# Checkers

A checker says which values it accepts. Primitive checkers look at the kind of a
value only, a literal at one string ; combinators build checkers from checkers. A
reference looks a checker up by its address when a value is checked, so checkers
may refer to themselves and to each other.

Two checkers are instruments. A watched checker notes in the journal that it was
asked before it asks the one inside, and a scripted checker answers by the journal
so far. Deferred properties may note that their producer ran, and a scripted producer
yields a checker, or none, by the journal so far.
-/

namespace DataShape

/-- The checkers that look at the kind of a value only. -/
inductive Primitive where
  | string
  | number
  | boolean
  | null
  | unknown
deriving DecidableEq, Repr

/-- `unknown` accepts everything, `null` only null ; not-a-number is a number. -/
def Primitive.accepts : Primitive → Value → Bool
  | string, v => v.kind == .string
  | number, v => v.kind == .number
  | boolean, v => v.kind == .boolean
  | null, v => v.kind == .null
  | unknown, _ => true

/-- Where a checker is found : under a name in a registry or in a slot. -/
inductive Address where
  | entry (registry : Nat) (name : String)
  | slot (name : String)
deriving DecidableEq, Repr

/-- A reference to an address. The serial number tells references to one address apart. -/
structure Lookup where
  serial : Nat
  address : Address
deriving DecidableEq, Repr

/-- An instrument in a checker and the label it signs the journal with. -/
structure Probe where
  serial : Nat
  label : String
deriving DecidableEq, Repr

/-- A place in the value under check. Its depth tells most places apart without a look at the
steps. -/
structure Place where
  depth : Nat
  /-- The steps that lead there, the last one first. -/
  steps : List Step
  depth_eq : depth = steps.length
deriving DecidableEq, Repr

namespace Place

/-- The place of the whole value. -/
def root : Place :=
  ⟨0, [], rfl⟩

/-- The place one step further down. -/
def child (p : Place) (s : Step) : Place :=
  ⟨p.depth + 1, s :: p.steps, by simp [p.depth_eq]⟩

end Place

/-- What happens during a check. -/
inductive Event where
  /-- An instrument was asked about a value of a kind. -/
  | asked (probe : Probe) (kind : Kind)
  /-- The producer of a deferred property ran. -/
  | made (label : String)
  /-- A reference began to check the value at a place. -/
  | entered (lookup : Lookup) (place : Place)
  /-- A reference was done with the value at a place. -/
  | left (lookup : Lookup) (place : Place)
  /-- A reference was reached again while it checked the value at the same place. -/
  | reentered (lookup : Lookup) (place : Place)
  /-- Nothing was found at an address. -/
  | unresolved (address : Address)
deriving DecidableEq, Repr

mutual
/-- A checker. -/
inductive Checker where
  | primitive (p : Primitive)
  | literal (expected : String)
  /-- Accepts what one of the alternatives accepts. -/
  | any (alternatives : List Checker)
  /-- Accepts null and what the inner checker accepts. -/
  | nullable (inner : Checker)
  /-- Accepts arrays of which every item is accepted. -/
  | array (element : Checker)
  /-- Accepts objects of which every declared property is accepted or may be missing. -/
  | object (properties : List (DeclaredKey × Property))
  /-- Accepts what the checker at an address accepts. -/
  | reference (lookup : Lookup)
  | watched (probe : Probe) (inner : Checker)
  | scripted (probe : Probe) (answer : List Event → Bool)

/-- How the checker of a declared property is had. -/
inductive Property where
  | direct (checker : Checker)
  /-- A producer that yields this checker each time. -/
  | produced (label : Option String) (checker : Checker)
  /-- A producer that yields none. -/
  | barren (label : Option String)
  /-- A producer that yields what is found at an address. -/
  | found (label : Option String) (address : Address)
  /-- A producer that yields by the journal. -/
  | scripted (probe : Probe) (yield : List Event → Option Checker)
end

instance : Inhabited Checker :=
  ⟨.primitive .unknown⟩

instance : Inhabited Property :=
  ⟨.direct default⟩

def Property.isDirect : Property → Bool
  | direct _ => true
  | _ => false

namespace Checker

/-! ## Parts -/

/-- The alternatives of a union. -/
def alternatives : Checker → List Checker
  | any cs => cs
  | _ => []

/-- The checker inside a nullable one. -/
def inner? : Checker → Option Checker
  | nullable c => some c
  | _ => none

/-- The checker of the items of an array. -/
def element? : Checker → Option Checker
  | array c => some c
  | _ => none

/-- The string a literal accepts. -/
def literal? : Checker → Option String
  | literal s => some s
  | _ => none

/-! ## Size -/

mutual
/-- How many checkers and properties a checker is made of. -/
def size : Checker → Nat
  | any cs => sizeAll cs + 1
  | nullable c => size c + 1
  | array c => size c + 1
  | object ps => sizeProperties ps + 1
  | watched _ c => size c + 1
  | _ => 1

def sizeAll : List Checker → Nat
  | [] => 0
  | c :: cs => size c + sizeAll cs

def sizeProperties : List (DeclaredKey × Property) → Nat
  | [] => 0
  | (_, p) :: ps => sizeProperty p + sizeProperties ps

def sizeProperty : Property → Nat
  | .direct c => size c + 1
  | .produced _ c => size c + 1
  | _ => 1
end

theorem size_pos (c : Checker) : 0 < c.size := by
  cases c <;> simp [size]

theorem size_le_sizeAll {c : Checker} {cs : List Checker} (h : c ∈ cs) : c.size ≤ sizeAll cs := by
  induction cs with
  | nil => cases h
  | cons d ds ih =>
    rcases List.mem_cons.1 h with rfl | h
    · exact Nat.le_add_right ..
    · exact Nat.le_trans (ih h) (Nat.le_add_left ..)

theorem sizeProperty_le_sizeProperties {k : DeclaredKey} {p : Property}
    {ps : List (DeclaredKey × Property)} (h : (k, p) ∈ ps) :
    sizeProperty p ≤ sizeProperties ps := by
  induction ps with
  | nil => cases h
  | cons e ps ih =>
    rcases List.mem_cons.1 h with rfl | h
    · exact Nat.le_add_right ..
    · exact Nat.le_trans (ih h) (Nat.le_add_left ..)

/-! ## References and instruments -/

mutual
/-- The references a checker is made of, those included that its producers yield each time. -/
def lookups : Checker → List Lookup
  | any cs => lookupsAll cs
  | nullable c => lookups c
  | array c => lookups c
  | object ps => lookupsProperties ps
  | reference l => [l]
  | watched _ c => lookups c
  | _ => []

def lookupsAll : List Checker → List Lookup
  | [] => []
  | c :: cs => lookups c ++ lookupsAll cs

def lookupsProperties : List (DeclaredKey × Property) → List Lookup
  | [] => []
  | (_, p) :: ps => lookupsProperty p ++ lookupsProperties ps

def lookupsProperty : Property → List Lookup
  | .direct c => lookups c
  | .produced _ c => lookups c
  | _ => []
end

theorem lookups_subset_lookupsAll {c : Checker} {cs : List Checker} (h : c ∈ cs) :
    c.lookups ⊆ lookupsAll cs := by
  induction cs with
  | nil => cases h
  | cons d ds ih =>
    rcases List.mem_cons.1 h with rfl | h
    · exact List.subset_append_left ..
    · exact fun l hl => List.mem_append_right _ (ih h hl)

theorem lookupsProperty_subset_lookupsProperties {k : DeclaredKey} {p : Property}
    {ps : List (DeclaredKey × Property)} (h : (k, p) ∈ ps) :
    lookupsProperty p ⊆ lookupsProperties ps := by
  induction ps with
  | nil => cases h
  | cons e ps ih =>
    rcases List.mem_cons.1 h with rfl | h
    · exact List.subset_append_left ..
    · exact fun l hl => List.mem_append_right _ (ih h hl)

mutual
/-- The instruments in a checker, those included that its producers yield each time. -/
def probes : Checker → List Probe
  | any cs => probesAll cs
  | nullable c => probes c
  | array c => probes c
  | object ps => probesProperties ps
  | watched probe c => probe :: probes c
  | scripted probe _ => [probe]
  | _ => []

def probesAll : List Checker → List Probe
  | [] => []
  | c :: cs => probes c ++ probesAll cs

def probesProperties : List (DeclaredKey × Property) → List Probe
  | [] => []
  | (_, p) :: ps => probesProperty p ++ probesProperties ps

def probesProperty : Property → List Probe
  | .direct c => probes c
  | .produced _ c => probes c
  | .scripted probe _ => [probe]
  | _ => []
end

/-- A checker without instruments, all references of which are known. -/
def BuiltFrom (known : List Lookup) (c : Checker) : Prop :=
  c.probes = [] ∧ c.lookups ⊆ known

theorem BuiltFrom.mono {known known' : List Lookup} {c : Checker} (h : c.BuiltFrom known)
    (hsub : known ⊆ known') : c.BuiltFrom known' :=
  ⟨h.1, fun _ hl => hsub (h.2 hl)⟩

end Checker

end DataShape
