import DataShape.Checker.Basic

/-!
# Shapes

A shape is a dictionary of declared keys in the order of their first declaration.
Declaring a key again replaces its checker where it stands. Keys are told apart as
they are declared : `a` and `a?` are two keys, though they declare one property.
-/

namespace DataShape

/-- The declared properties of an object. -/
structure Shape where
  properties : List (DeclaredKey × Property)
  distinct : (Keyed.keys properties).Nodup

namespace Shape

def empty : Shape :=
  ⟨[], List.nodup_nil⟩

/-- Declares a property. -/
def entry (s : Shape) (key : String) (p : Property) : Shape :=
  ⟨Keyed.put ⟨key⟩ p s.properties, Keyed.nodup_keys_put _ _ s.distinct⟩

/-- The property declared under exactly this key. -/
def get? (s : Shape) (key : String) : Option Property :=
  Keyed.get? ⟨key⟩ s.properties

/-- Declares a property and reports the one it replaces. -/
def insert (s : Shape) (key : String) (p : Property) : Option Property × Shape :=
  (s.get? key, s.entry key p)

/-- Declares a property with its checker. -/
def field (s : Shape) (key : String) (c : Checker) : Shape :=
  s.entry key (.direct c)

/-- Declares a property whose checker is produced on demand. -/
def lazy (s : Shape) (key : String) (c : Checker) : Shape :=
  s.entry key (.produced none c)

/-- Declares a property whose checker is produced on demand, or not at all. -/
def tryLazy (s : Shape) (key : String) : Option Checker → Shape
  | some c => s.lazy key c
  | none => s.entry key (.barren none)

/-- The shape that declares these properties in turn. -/
def ofList (ps : List (String × Property)) : Shape :=
  ps.foldl (fun s p => s.entry p.1 p.2) empty

/-- How many keys are declared. -/
def size (s : Shape) : Nat :=
  s.properties.length

def isEmpty (s : Shape) : Bool :=
  s.properties.isEmpty

/-- The declared keys in their order. -/
def keys (s : Shape) : List DeclaredKey :=
  Keyed.keys s.properties

/-- The names of the properties and whether they may be missing. -/
def fields (s : Shape) : List (String × Bool) :=
  s.keys.map fun k => (k.name, k.isOptional)

end Shape

/-- The checker of objects of a shape. -/
def Checker.ofShape (s : Shape) : Checker :=
  .object s.properties

end DataShape
