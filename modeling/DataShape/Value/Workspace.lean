import DataShape.Value.Path

/-!
# Named values

A workspace holds values under names. A value copied to another name, or a part of
it, is a value of its own : later edits of either do not show in the other. What is put
under a name or into a container is a new value or a copy of what can be read somewhere
(`Workspace.Operand`).
-/

namespace DataShape

/-- Values under names, in the order of the names. -/
structure Workspace where
  slots : List (String × Value)

namespace Workspace

open Value (Edit EditError)

def empty : Workspace :=
  ⟨[]⟩

def get? (w : Workspace) (name : String) : Option Value :=
  Keyed.get? name w.slots

def set (w : Workspace) (name : String) (v : Value) : Workspace :=
  ⟨Fields.insert name v w.slots⟩

/-- The value under a name, where one is due. -/
def get (w : Workspace) (name : String) : Except EditError Value :=
  match w.get? name with
  | some v => .ok v
  | none => .error .missing

/-- Copies what a path reads under one name to another name. -/
def copy (w : Workspace) (source : String) (p : Path) (target : String) :
    Except EditError Workspace := do
  let v ← w.get source
  return w.set target (v.follow p)

/-- Edits the value under a name at the end of a path. -/
def edit {α : Type} (w : Workspace) (name : String) (p : Path) (f : Edit α) :
    Except EditError (Workspace × α) := do
  let v ← w.get name
  let (v, r) ← Value.edit f p v
  return (w.set name v, r)

/-- What is put in by an action. -/
inductive Operand where
  | fresh (v : Value)
  /-- A copy of what a path reads under a name. -/
  | part (name : String) (p : Path)
deriving Repr

def value (w : Workspace) : Operand → Except EditError Value
  | .fresh v => .ok v
  | .part name p => (w.get name).map fun v => v.follow p

/-- The change with the values that are put in. -/
def prepare (w : Workspace) : Change Operand → Except EditError (Change Value)
  | .replace x => (w.value x).map .replace
  | .push x => (w.value x).map .push
  | .pop => .ok .pop
  | .insert k x => (w.value x).map (.insert k)
  | .remove k => .ok (.remove k)

/-- What may be done with named values. -/
inductive Action where
  /-- Puts a value under a name. -/
  | set (name : String) (x : Operand)
  /-- Changes the value under a name at the end of a path. -/
  | edit (name : String) (p : Path) (c : Change Operand)
deriving Repr

/-- What an action reports, and the workspace after it. One that fails leaves it as it was. -/
def act (w : Workspace) : Action → Except EditError (Option Value) × Workspace
  | .set name x =>
    match w.value x with
    | .error e => (.error e, w)
    | .ok v => (.ok none, w.set name v)
  | .edit name p c =>
    match w.get name, w.prepare c with
    | .error e, _ => (.error e, w)
    | _, .error e => (.error e, w)
    | .ok v, .ok c =>
      match Value.edit c.edit p v with
      | .error e => (.error e, w)
      | .ok (v, r) => (.ok r, w.set name v)

/-- The workspace after these actions in turn. -/
def run (w : Workspace) (actions : List Action) : Workspace :=
  actions.foldl (fun w a => (w.act a).2) w

/-- What is read under a name along a path, if there is a value under the name. -/
def read? (w : Workspace) (name : String) (p : Path) : Option Value :=
  (w.get? name).map fun v => v.follow p

/-- Whether two names hold equal values or both hold none. -/
def same (w : Workspace) (a b : String) : Bool :=
  match w.get? a, w.get? b with
  | some u, some v => u.equal v
  | none, none => true
  | _, _ => false

end Workspace

end DataShape
