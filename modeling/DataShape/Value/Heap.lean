import DataShape.Value.Path

/-!
# Values in shared cells

In storage the items of an array and the fields of an object stand in a cell, and a value is a
handle : a scalar, or the address of a cell. To copy a value is to copy its handle, so one cell may
belong to several containers and to several values outside. It counts them. When the last of its
owners is gone a cell is vacated, and what it held loses an owner (`Heap.release`).

A container is only changed in a cell that is its own. If the cell has other owners, the container
moves to a new cell first, with copies of all handles in it (`Heap.unshare`). An edit goes down a
path and unshares every container on its way, before it is known whether the next step leads
anywhere (`Heap.edit`). So an edit that fails may have moved containers, but no value has changed.
-/

namespace DataShape

open Value (AccessError EditError)

/-- A value as it is passed on. -/
inductive Handle where
  | null
  | bool (b : Bool)
  | number (n : Number)
  | string (s : String)
  | undefined
  /-- The container in the cell at an address. -/
  | cell (a : Nat)
deriving DecidableEq, Repr

/-- What a cell holds. -/
inductive Content where
  | array (items : List Handle)
  | object (fields : List (String × Handle))
deriving DecidableEq, Repr

namespace Content

def children : Content → List Handle
  | array items => items
  | object fields => fields.map Prod.snd

/-- The handle one step down. -/
def child? : Step → Content → Option Handle
  | .key k, object fields => Keyed.get? k fields
  | .index i, array items => items[i]?
  | _, _ => none

/-- The content with another handle at a step. -/
def setChild : Step → Handle → Content → Content
  | .key k, h, object fields => object (Keyed.put k h fields)
  | .index i, h, array items => array (items.set i h)
  | _, _, c => c

end Content

/-- A container in storage, and how many handles lead to it. -/
structure Cell where
  owners : Nat
  content : Content
deriving Repr

/-- Cells at their addresses. -/
structure Heap where
  cells : List Cell
deriving Repr

namespace Heap

def empty : Heap :=
  ⟨[]⟩

def owners (H : Heap) (a : Nat) : Nat :=
  (H.cells[a]?.map Cell.owners).getD 0

def content? (H : Heap) (a : Nat) : Option Content :=
  H.cells[a]?.map Cell.content

/-- Another cell at an address where one is. -/
def update (H : Heap) (a : Nat) (f : Cell → Cell) : Heap :=
  ⟨H.cells.modify a f⟩

def setOwners (H : Heap) (a n : Nat) : Heap :=
  H.update a fun x => { x with owners := n }

def setContent (H : Heap) (a : Nat) (c : Content) : Heap :=
  H.update a fun x => { x with content := c }

/-- A cell without owners and with nothing in it. -/
def vacate (H : Heap) (a : Nat) : Heap :=
  H.update a fun _ => ⟨0, .array []⟩

/-- A sum over cells. -/
def sumOver (g : Cell → Nat) : List Cell → Nat
  | [] => 0
  | x :: xs => g x + sumOver g xs

theorem sumOver_append (g : Cell → Nat) (ys : List Cell) :
    ∀ xs : List Cell, sumOver g (xs ++ ys) = sumOver g xs + sumOver g ys
  | [] => (Nat.zero_add _).symm
  | x :: xs => by rw [List.cons_append, sumOver, sumOver, sumOver_append g ys xs, Nat.add_assoc]

/-- It changes as one of the cells does. -/
theorem sumOver_update {H : Heap} {a : Nat} {x : Cell} (g : Cell → Nat) (f : Cell → Cell)
    (hx : H.cells[a]? = some x) :
    sumOver g (H.update a f).cells + g x = sumOver g H.cells + g (f x) := by
  obtain ⟨ha, hx⟩ := List.getElem?_eq_some_iff.1 hx
  obtain ⟨pre, y, post, hcells, hlength, hmodify⟩ := List.exists_of_modify f ha
  have hy : y = x := by
    simp only [hcells, List.getElem_append_right (Nat.le_of_eq hlength), hlength] at hx
    simpa using hx
  subst hy
  rw [update, hmodify, hcells]
  simp only [sumOver_append, sumOver]
  omega

/-! ## Owners -/

/-- How many owners there are of all cells. -/
def total (H : Heap) : Nat :=
  sumOver Cell.owners H.cells

theorem exists_of_owners_pos {H : Heap} {a : Nat} (h : 0 < H.owners a) :
    ∃ x, H.cells[a]? = some x ∧ x.owners = H.owners a := by
  unfold owners at h ⊢
  cases hx : H.cells[a]? with
  | none => simp [hx] at h
  | some x => exact ⟨x, rfl, rfl⟩

theorem total_update_lt {H : Heap} {a : Nat} {f : Cell → Cell} (hpos : 0 < H.owners a)
    (hf : ∀ x : Cell, (f x).owners < H.owners a) : (H.update a f).total < H.total := by
  obtain ⟨x, hx, howners⟩ := exists_of_owners_pos hpos
  have hsum := sumOver_update Cell.owners f hx
  have hless := hf x
  rw [← howners] at hless
  unfold total
  omega

/-- One more owner. -/
def retain (H : Heap) : Handle → Heap
  | .cell a => H.setOwners a (H.owners a + 1)
  | _ => H

def retainAll (H : Heap) (hs : List Handle) : Heap :=
  hs.foldl retain H

/-- The handles are gone. A cell without owners is vacated, and the handles in it go too. -/
def release (H : Heap) : List Handle → Heap
  | [] => H
  | .cell a :: hs =>
    match howners : H.owners a with
    | 0 => H.release hs
    | 1 => (H.vacate a).release (((H.content? a).map Content.children).getD [] ++ hs)
    | n + 2 => (H.setOwners a (n + 1)).release hs
  | _ :: hs => H.release hs
termination_by hs => (H.total, hs.length)
decreasing_by
  · exact Prod.Lex.right _ (Nat.lt_succ_self _)
  · refine Prod.Lex.left _ _ (total_update_lt ?_ fun x => ?_) <;> rw [howners] <;> decide
  · refine Prod.Lex.left _ _ (total_update_lt ?_ fun x => ?_) <;> rw [howners]
    · exact Nat.succ_pos _
    · exact Nat.lt_succ_self _
  all_goals exact Prod.Lex.right _ (Nat.lt_succ_self _)

/-! ## New cells -/

/-- A new cell with one owner. -/
def alloc (H : Heap) (c : Content) : Nat × Heap :=
  (H.cells.length, ⟨H.cells ++ [⟨1, c⟩]⟩)

mutual
/-- A value in new cells. -/
def build : Value → Heap → Handle × Heap
  | .null, H => (.null, H)
  | .bool b, H => (.bool b, H)
  | .number n, H => (.number n, H)
  | .string s, H => (.string s, H)
  | .array items, H =>
    let (hs, H) := buildItems items H
    let (a, H) := H.alloc (.array hs)
    (.cell a, H)
  | .object fields, H =>
    let (fs, H) := buildFields fields H
    let (a, H) := H.alloc (.object fs)
    (.cell a, H)
  | .undefined, H => (.undefined, H)

def buildItems : List Value → Heap → List Handle × Heap
  | [], H => ([], H)
  | v :: vs, H =>
    let (h, H) := build v H
    let (hs, H) := buildItems vs H
    (h :: hs, H)

def buildFields : List (String × Value) → Heap → List (String × Handle) × Heap
  | [], H => ([], H)
  | (k, v) :: fs, H =>
    let (h, H) := build v H
    let (hs, H) := buildFields fs H
    ((k, h) :: hs, H)
end

/-! ## Reading -/

/-- The handle one step down, `undefined` if nothing is there. -/
def child (H : Heap) (h : Handle) (s : Step) : Handle :=
  match h with
  | .cell a => ((H.content? a).bind (Content.child? s)).getD .undefined
  | _ => .undefined

/-- The handle at the end of a path, `undefined` from the first step that leads nowhere. Nothing is
copied. -/
def follow (H : Heap) (h : Handle) (p : Path) : Handle :=
  p.foldl H.child h

/-- The value of a handle, down to a depth. -/
def readWithin (H : Heap) : Nat → Handle → Value
  | _, .null => .null
  | _, .bool b => .bool b
  | _, .number n => .number n
  | _, .string s => .string s
  | _, .undefined => .undefined
  | 0, .cell _ => .undefined
  | n + 1, .cell a =>
    match H.content? a with
    | none => .undefined
    | some (.array items) => .array (items.map (H.readWithin n))
    | some (.object fields) => .object (fields.map fun f => (f.1, H.readWithin n f.2))

/-- The value of a handle. No container is inside itself, so containers are nested no deeper than
there are cells. -/
def read (H : Heap) (h : Handle) : Value :=
  H.readWithin H.cells.length h

/-! ## Changing -/

/-- A cell of its own for a container : the cell where it stands if that has no other owner, and
otherwise a new one with copies of the handles. -/
def unshare (H : Heap) (a : Nat) (c : Content) : Nat × Heap :=
  if H.owners a = 1 then (a, H)
  else
    let (b, H) := (H.retainAll c.children).alloc c
    (b, H.release [.cell a])

/-- The items of an array, in a cell of its own. -/
def arrayMut (H : Heap) : Handle → Except AccessError (List Handle × Nat × Heap)
  | .cell a =>
    match H.content? a with
    | some (.array items) => .ok (items, H.unshare a (.array items))
    | _ => .error .notArray
  | _ => .error .notArray

/-- The fields of an object, in a cell of its own. -/
def objectMut (H : Heap) : Handle → Except AccessError (List (String × Handle) × Nat × Heap)
  | .cell a =>
    match H.content? a with
    | some (.object fields) => .ok (fields, H.unshare a (.object fields))
    | _ => .error .notObject
  | _ => .error .notObject

/-- The container that a step goes on from, in a cell of its own. -/
def stepMut (H : Heap) (h : Handle) : Step → Except AccessError (Content × Nat × Heap)
  | .key _ => (H.objectMut h).map fun x => (.object x.1, x.2)
  | .index _ => (H.arrayMut h).map fun x => (.array x.1, x.2)

/-- How an edit ends : what came of it, the handle that stands where the edited one stood, and the
storage. -/
structure Edited where
  result : Except EditError (Option Handle)
  handle : Handle
  heap : Heap

/-- Changes the items of an array. -/
def onArray (H : Heap) (h : Handle) (f : List Handle → List Handle × Option Handle) : Edited :=
  match H.arrayMut h with
  | .error e => ⟨.error (.access e), h, H⟩
  | .ok (items, a, H) => ⟨.ok (f items).2, .cell a, H.setContent a (.array (f items).1)⟩

/-- Changes the fields of an object. -/
def onObject (H : Heap) (h : Handle)
    (f : List (String × Handle) → List (String × Handle) × Option Handle) : Edited :=
  match H.objectMut h with
  | .error e => ⟨.error (.access e), h, H⟩
  | .ok (fields, a, H) => ⟨.ok (f fields).2, .cell a, H.setContent a (.object (f fields).1)⟩

/-- Changes a value and hands out what was taken out. -/
def change (H : Heap) (h : Handle) : Change Handle → Edited
  | .replace x => ⟨.ok (some h), x, H⟩
  | .push x => H.onArray h fun items => (items ++ [x], none)
  | .pop => H.onArray h fun items => (items.dropLast, items.getLast?)
  | .insert k x => H.onObject h fun fields => (Fields.insert k x fields, Keyed.get? k fields)
  | .remove k => H.onObject h fun fields => (Keyed.erase k fields, Keyed.get? k fields)

/-- Changes the value at the end of a path. A child is taken out of its container while it is
edited, and is put back whether the edit succeeds or not. -/
def edit (c : Change Handle) : Path → Handle → Heap → Edited
  | [], h, H => H.change h c
  | s :: p, h, H =>
    match H.stepMut h s with
    | .error e => ⟨.error (.access e), h, H⟩
    | .ok (content, a, H) =>
      match content.child? s with
      | none => ⟨.error .missing, .cell a, H⟩
      | some child =>
        let done := edit c p child (H.setContent a (content.setChild s .undefined))
        { done with
          handle := .cell a
          heap := done.heap.setContent a (content.setChild s done.handle) }

end Heap

end DataShape
