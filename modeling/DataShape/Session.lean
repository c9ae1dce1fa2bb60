import DataShape.Registry.Shared

/-!
# Sessions

A session holds registries, checkers in slots and the journal of all checks so far.
A checker in a slot is shared by all that refer to the slot by taking it, and
looked up anew by deferred properties that refer to it by name. Every check starts
with no reference in progress and goes on with the journal.
-/

namespace DataShape

structure Session where
  registries : Registries
  slots : List (String × Checker)
  journal : List Event

namespace Session

def empty : Session :=
  ⟨.empty, [], []⟩

/-- The checker in a slot. -/
def slot? (s : Session) (name : String) : Option Checker :=
  Keyed.get? name s.slots

/-- Puts a checker into a slot. -/
def fill (s : Session) (name : String) (c : Checker) : Session :=
  { s with slots := Keyed.put name c s.slots }

/-- All checkers that can be found. -/
def environment (s : Session) : Environment :=
  s.registries.environment ++ s.slots.map fun e => (.slot e.1, e.2)

/-- Checks a value. Gives the answer and what happened meanwhile, the first event first. -/
def check (s : Session) (c : Checker) (v : Value) : (Bool × List Event) × Session :=
  let (answer, t) := s.environment.check c v ⟨[], s.journal⟩
  let news := (t.journal.take (t.journal.length - s.journal.length)).reverse
  ((answer, news), { s with journal := t.journal })

/-- An instrument of its own. -/
def probe (s : Session) (label : String) : Probe × Session :=
  let (n, registries) := s.registries.fresh
  (⟨n, label⟩, { s with registries })

/-- A checker that answers by a list, one answer each time it is asked, and rejects afterwards. -/
def script (p : Probe) (answers : List Bool) : Checker :=
  .scripted p fun earlier =>
    let times := earlier.countP fun e => match e with
      | .asked q _ => q == p
      | _ => false
    answers.getD times false

end Session

end DataShape
