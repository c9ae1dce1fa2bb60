import DataShape.Registry.Basic
import DataShape.Checker.Check

/-!
# Shared registries

Registries are reached through handles. Several handles may share one registry, and
a registry lives as long as it has a handle. References are bound to the registry
itself : they see what is registered in it later, through whatever handle, and
find nothing once it is gone. A handle that is used for the first time, or again
after it was dropped, gets a registry of its own that nothing refers to yet.

One handle is there from the start and cannot be dropped or bound anew.
-/

namespace DataShape

/-- Registries under numbers, the handles to them and the next number that is free. Numbers tell
registries apart as well as references and instruments. -/
structure Registries where
  stores : List (Nat × Registry)
  handles : List (String × Nat)
  next : Nat

namespace Registries

/-- The handle of the registry that is always there. -/
abbrev permanent : String := "global"

def empty : Registries :=
  ⟨[(0, .empty)], [(permanent, 0)], 1⟩

/-- A number that was not used before. -/
def fresh (s : Registries) : Nat × Registries :=
  (s.next, { s with next := s.next + 1 })

/-- The number of the registry of a handle, a new one for a new handle. -/
def locate (s : Registries) (handle : String) : Nat × Registries :=
  match Keyed.get? handle s.handles with
  | some i => (i, s)
  | none =>
    (s.next, ⟨Keyed.put s.next .empty s.stores, Keyed.put handle s.next s.handles, s.next + 1⟩)

/-- The registry of a number. -/
def registry (s : Registries) (i : Nat) : Registry :=
  (Keyed.get? i s.stores).getD .empty

/-- The registry of a handle. -/
def view (s : Registries) (handle : String) : Registry :=
  match Keyed.get? handle s.handles with
  | some i => s.registry i
  | none => .empty

/-- Writes the registry of a number. -/
def store (s : Registries) (i : Nat) (r : Registry) : Registries :=
  { s with stores := Keyed.put i r s.stores }

/-! ## Operations through a handle -/

def register (s : Registries) (handle name : String) (c : Checker) :
    Except RegistryError Unit × Registries :=
  let (i, s) := s.locate handle
  match (s.registry i).register name c with
  | .ok r => (.ok (), s.store i r)
  | .error e => (.error e, s)

def define (s : Registries) (handle name : String) (d : Descriptor) :
    Except DefineError Unit × Registries :=
  let (i, s) := s.locate handle
  match (s.registry i).define i s.next name d with
  | .ok (r, next) => (.ok (), { s.store i r with next })
  | .error e => (.error e, s)

/-- Removes a name and gives the checker that was under it. -/
def remove (s : Registries) (handle name : String) : Option Checker × Registries :=
  let (i, s) := s.locate handle
  let r := s.registry i
  (r.get? name, s.store i (r.remove name))

def clear (s : Registries) (handle : String) : Registries :=
  let (i, s) := s.locate handle
  s.store i .empty

/-- A checker that looks a name up whenever it is asked. -/
def reference (s : Registries) (handle name : String) : Checker × Registries :=
  let (i, s) := s.locate handle
  let (n, s) := s.fresh
  (.reference ⟨n, .entry i name⟩, s)

/-- A deferred property that looks a name up whenever it is visited. -/
def deferred (s : Registries) (handle name : String) : Property × Registries :=
  let (i, s) := s.locate handle
  (.found none (.entry i name), s)

/-- The checker of a descriptor, its references bound to the registry of a handle. -/
def compile (s : Registries) (handle : String) (d : Descriptor) : Checker × Registries :=
  let (i, s) := s.locate handle
  let (c, next) := d.compile i s.next
  (c, { s with next })

/-! ## Handles -/

/-- Registries without a handle are gone. -/
def sweep (s : Registries) : Registries :=
  { s with stores := s.stores.filter fun e => s.handles.any fun h => h.2 == e.1 }

/-- Makes another handle share the registry of a handle. -/
def share (s : Registries) (handle other : String) : Registries :=
  let (i, s) := s.locate handle
  if other = permanent then s
  else sweep { s with handles := Keyed.put other i s.handles }

/-- Forgets a handle. -/
def drop (s : Registries) (handle : String) : Registries :=
  if handle = permanent then s
  else sweep { s with handles := Keyed.erase handle s.handles }

/-! ## Checking -/

/-- The checkers of all registries by their addresses. -/
def environment (s : Registries) : Environment :=
  s.stores.flatMap fun e => e.2.entries.map fun entry => (.entry e.1 entry.1, entry.2)

end Registries

end DataShape
