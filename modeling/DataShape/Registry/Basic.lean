import DataShape.Descriptor.Compile
import DataShape.Text.Description

/-!
# Registries

A registry holds checkers under names, so that shapes may refer to each other, to
themselves and to shapes that come later. Names are not blank and are given once.

Checkers that were compiled from descriptors keep their descriptors beside them. A
definition must not reach itself through unguarded references alone : a value
would be asked the same question over and over. `cycle?` looks for such a way,
depth first and in the order of the names.
-/

namespace DataShape

/-- Why a checker is not registered. -/
inductive RegistryError where
  | alreadyExists (name : String)
  | invalidName (name : String)
deriving DecidableEq, Repr

def RegistryError.message : RegistryError → String
  | alreadyExists name =>
    "shape registration failed: a shape named '" ++ name ++ "' is already registered"
  | invalidName name =>
    "shape registration failed: the name '" ++ name ++
      "' is invalid (empty or whitespace-only names are not allowed)"

/-- Why a descriptor is not defined. -/
inductive DefineError where
  /-- The names of a reference cycle, the first and the last of them the name to be defined. -/
  | cycle (names : List String)
  | registry (e : RegistryError)
deriving DecidableEq, Repr

def DefineError.message : DefineError → String
  | cycle names =>
    "invalid descriptor at $: reference cycle `" ++ " -> ".intercalate names ++
      "` does not pass through an object property or array element"
  | registry e => e.message

/-- Checkers under names, with the descriptors of those that were defined by one. -/
structure Registry where
  entries : List (String × Checker)
  definitions : List (String × Descriptor)

namespace Registry

def empty : Registry :=
  ⟨[], []⟩

/-- The checker under a name. -/
def get? (r : Registry) (name : String) : Option Checker :=
  Keyed.get? name r.entries

/-- The descriptor that a name was defined by. -/
def definition? (r : Registry) (name : String) : Option Descriptor :=
  Keyed.get? name r.definitions

def contains (r : Registry) (name : String) : Bool :=
  (r.get? name).isSome

def size (r : Registry) : Nat :=
  r.entries.length

def isEmpty (r : Registry) : Bool :=
  r.entries.isEmpty

/-- The registered names in ascending order. -/
def names (r : Registry) : List String :=
  NameSet.ofList (Keyed.keys r.entries)

/-- The registered names, for messages to developers. -/
def describe (r : Registry) : String :=
  String.ofList (Text.record "ShapeRegistry" [("names", Text.listed (r.names.map Text.quoted))])

/-- Registers a checker under a new name. -/
def register (r : Registry) (name : String) (c : Checker) : Except RegistryError Registry :=
  if Text.isBlank name then .error (.invalidName name)
  else if r.contains name then .error (.alreadyExists name)
  else .ok { r with entries := Keyed.put name c r.entries }

/-- Removes a name and its definition. -/
def remove (r : Registry) (name : String) : Registry :=
  ⟨Keyed.erase name r.entries, Keyed.erase name r.definitions⟩

/-- The references of a descriptor that are not registered. -/
def unresolved (r : Registry) (d : Descriptor) : List String :=
  d.references.filter fun name => !r.contains name

/-! ## Definitions -/

/-- Looks for a way from one of the pending names to the target along unguarded references of
definitions. Gives the names on the way, the target last, and the names seen so far ; a name that
was seen is not followed again. `n` bounds the names that are looked at on the way. -/
def wayTo (r : Registry) (target : String) :
    (n : Nat) → (pending seen : List String) → Option (List String) × List String
  | 0, _, seen => (none, seen)
  | _ + 1, [], seen => (none, seen)
  | n + 1, next :: rest, seen =>
    if next = target then (some [next], seen)
    else if next ∈ seen then wayTo r target n rest seen
    else
      match r.definition? next with
      | none => wayTo r target n rest (next :: seen)
      | some d =>
        match wayTo r target n d.unguarded (next :: seen) with
        | (some way, seen) => (some (next :: way), seen)
        | (none, seen) => wayTo r target n rest seen

/-- How many names a search from a descriptor can look at. -/
def searchBound (r : Registry) (d : Descriptor) : Nat :=
  d.unguarded.length + (r.definitions.flatMap fun e => e.2.unguarded).length +
    r.definitions.length + 1

/-- The names of a reference cycle that would come about if the name had this definition. -/
def cycle? (r : Registry) (name : String) (d : Descriptor) : Option (List String) :=
  (r.wayTo name (r.searchBound d) d.unguarded []).1.map fun way => name :: way

/-- Compiles a descriptor for the registry of the given number and registers it. Gives the registry
and the next serial number. -/
def define (r : Registry) (number serial : Nat) (name : String) (d : Descriptor) :
    Except DefineError (Registry × Nat) :=
  match r.cycle? name d with
  | some names => .error (.cycle names)
  | none =>
    let (c, serial) := d.compile number serial
    match r.register name c with
    | .error e => .error (.registry e)
    | .ok r => .ok ({ r with definitions := Keyed.put name d r.definitions }, serial)

end Registry

end DataShape
