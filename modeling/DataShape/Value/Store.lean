import DataShape.Value.Heap
import DataShape.Value.Workspace

/-!
# Named values in shared storage

A store keeps handles under names. What is written under a name or into a container is a new value,
or a copy of what a path reads somewhere, which shares its cells with the original. To whoever
reads, a store looks like a workspace (`Store.workspace`), where nothing is shared.
-/

namespace DataShape

open Value (EditError)
open Workspace (Operand)

/-- Handles under names, in the order of the names. -/
structure Store where
  heap : Heap
  slots : List (String × Handle)
deriving Repr

namespace Store

def empty : Store :=
  ⟨.empty, []⟩

/-- What can be read under the names. -/
def workspace (s : Store) : Workspace :=
  ⟨s.slots.map fun f => (f.1, s.heap.read f.2)⟩

/-- What is read under a name along a path, if there is a value under the name. -/
def read? (s : Store) (name : String) (p : Path) : Option Value :=
  (Keyed.get? name s.slots).map fun h => s.heap.read (s.heap.follow h p)

/-- A handle to what is put in, and the storage with one more owner of it. -/
def take (s : Store) : Operand → Except EditError (Handle × Heap)
  | .fresh v => .ok (s.heap.build v)
  | .part name p =>
    match Keyed.get? name s.slots with
    | none => .error .missing
    | some h => .ok (s.heap.follow h p, s.heap.retain (s.heap.follow h p))

/-- The change with handles to what is put in. -/
def prepare (s : Store) : Change Operand → Except EditError (Change Handle × Heap)
  | .replace x => (s.take x).map fun t => (.replace t.1, t.2)
  | .push x => (s.take x).map fun t => (.push t.1, t.2)
  | .pop => .ok (.pop, s.heap)
  | .insert k x => (s.take x).map fun t => (.insert k t.1, t.2)
  | .remove k => .ok (.remove k, s.heap)

/-- What an action reports, and the store after it. What was taken out, what was replaced under a
name and what could not be put in is gone afterwards. -/
def act (s : Store) : Workspace.Action → Except EditError (Option Value) × Store
  | .set name x =>
    match s.take x with
    | .error e => (.error e, s)
    | .ok (h, H) =>
      let old := Keyed.get? name s.slots
      (.ok none, ⟨H.release old.toList, Fields.insert name h s.slots⟩)
  | .edit name p c =>
    match Keyed.get? name s.slots, s.prepare c with
    | none, _ => (.error .missing, s)
    | _, .error e => (.error e, s)
    | some h, .ok (c, H) =>
      let done := H.edit c p h
      let slots := Fields.insert name done.handle s.slots
      match done.result with
      | .ok old => (.ok (old.map done.heap.read), ⟨done.heap.release old.toList, slots⟩)
      | .error e => (.error e, ⟨done.heap.release c.operands, slots⟩)

/-- The store after these actions in turn. -/
def run (s : Store) (actions : List Workspace.Action) : Store :=
  actions.foldl (fun s a => (s.act a).2) s

end Store

end DataShape
