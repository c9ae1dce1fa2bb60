import DataShape.Value.Basic

/-!
# Paths into values

A path is a list of keys and indices. `Value.follow` reads along a path and finds
`undefined` wherever nothing is ; `Value.edit` changes the value at the end of a
path and fails where a step does not fit. An edit that fails leaves no trace, and
one that succeeds changes the place at the end of the path and no other.
-/

namespace DataShape

/-- One step into a value. -/
inductive Step where
  | key (k : String)
  | index (i : Nat)
deriving DecidableEq, Repr

abbrev Path := List Step

namespace Value

/-- The value one step down. -/
def child? : Step → Value → Option Value
  | .key k, v => v.field? k
  | .index i, array items => items[i]?
  | .index _, _ => none

/-- The value one step down, `undefined` if nothing is there. -/
def child (s : Step) (v : Value) : Value :=
  (v.child? s).getD undefined

/-- The value at the end of a path, `undefined` from the first step that leads nowhere. -/
def follow (v : Value) (p : Path) : Value :=
  p.foldl (fun v s => v.child s) v

/-! ## Editing -/

/-- Why an edit did not happen. -/
inductive EditError where
  /-- A step or the edit itself wants another kind of container. -/
  | access (e : AccessError)
  /-- A step leads to a field or an item that is not there. -/
  | missing
deriving DecidableEq, Repr

/-- An edit of one value : the new value and what the edit reports. -/
abbrev Edit (α : Type) := Value → Except EditError (Value × α)

/-- The value with the child at a step replaced. A step that leads nowhere changes nothing. -/
def setChild (s : Step) (w : Value) : Value → Value
  | array items =>
    match s with
    | .index i => array (items.set i w)
    | .key _ => array items
  | object fields =>
    match s with
    | .key k =>
      if (Keyed.get? k fields).isSome then object (Keyed.put k w fields) else object fields
    | .index _ => object fields
  | v => v

/-- The child that an edit may go on with. -/
def childToEdit : Step → Value → Except EditError Value
  | .key k, object fields =>
    match Keyed.get? k fields with
    | some w => .ok w
    | none => .error .missing
  | .key _, _ => .error (.access .notObject)
  | .index i, array items =>
    match items[i]? with
    | some w => .ok w
    | none => .error .missing
  | .index _, _ => .error (.access .notArray)

/-- Edits the value at the end of a path. -/
def edit {α : Type} (f : Edit α) : Path → Edit α
  | [], v => f v
  | s :: p, v => do
    let w ← childToEdit s v
    let (w', r) ← edit f p w
    return (setChild s w' v, r)

namespace Edit

/-- Edits the items of an array. -/
def onArray {α : Type} (f : List Value → List Value × α) : Edit α := fun v =>
  match v.asArray with
  | .ok items => let (items, r) := f items; .ok (array items, r)
  | .error e => .error (.access e)

/-- Edits the fields of an object. -/
def onObject {α : Type} (f : List (String × Value) → List (String × Value) × α) : Edit α := fun v =>
  match v.asObject with
  | .ok fields => let (fields, r) := f fields; .ok (object fields, r)
  | .error e => .error (.access e)

/-- Appends an item. -/
def push (w : Value) : Edit (Option Value) :=
  onArray fun items => (items ++ [w], none)

/-- Takes the last item off. -/
def pop : Edit (Option Value) :=
  onArray fun items => (items.dropLast, items.getLast?)

/-- Writes a field and reports the value it had. -/
def insert (k : String) (w : Value) : Edit (Option Value) :=
  onObject fun fields => (Fields.insert k w fields, Keyed.get? k fields)

/-- Removes a field and reports the value it had. -/
def remove (k : String) : Edit (Option Value) :=
  onObject fun fields => (Keyed.erase k fields, Keyed.get? k fields)

/-- Puts another value in place and reports the one that was there. -/
def replace (w : Value) : Edit (Option Value) := fun v =>
  .ok (w, some v)

end Edit

end Value

/-- A change to a value, with what is put in. -/
inductive Change (α : Type) where
  | replace (x : α)
  | push (x : α)
  | pop
  | insert (k : String) (x : α)
  | remove (k : String)
deriving Repr

namespace Change

/-- What is put in. -/
def operands {α : Type} : Change α → List α
  | replace x | push x | insert _ x => [x]
  | pop | remove _ => []

/-- The change as an edit of values. -/
def edit : Change Value → Value.Edit (Option Value)
  | replace w => .replace w
  | push w => .push w
  | pop => .pop
  | insert k w => .insert k w
  | remove k => .remove k

end Change

end DataShape
