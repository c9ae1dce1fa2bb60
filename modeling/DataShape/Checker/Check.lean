import DataShape.Checker.Basic

/-!
# Checking values

`step` asks one checker about one value and hands every further question to the
functions it is given, so it is no recursion by itself. The loop is closed in two
rounds. About one place there is a bound on the questions that are open at once
(`askAt`) : a question goes to a smaller checker or through a reference, and no
reference is entered twice for one place. A question that goes into the value starts
again with the bound of the checker at hand, which a producer may have made up on the
way (`askDown`), and the value has only so many levels.

That last rule is the guard (`guarded`). The references that are checking a value
stand on a stack with the places they are about. A reference that is reached again
for the same place came round a cycle that never went into the value, and rejects.
-/

namespace DataShape

/-- The checkers that can be found, by their addresses. -/
abbrev Environment := List (Address × Checker)

/-- What a check carries along : the references that are being checked, the innermost first, and
the journal, the latest event first. -/
structure Trail where
  active : List (Nat × Place)
  journal : List Event

namespace Trail

/-- Nothing is being checked and nothing has happened. -/
def empty : Trail :=
  ⟨[], []⟩

/-- Notes an event. -/
def note (e : Event) (t : Trail) : Trail :=
  { t with journal := e :: t.journal }

/-- Notes that a producer ran, if it is one that signs the journal. -/
def noteMade (label : Option String) (t : Trail) : Trail :=
  match label with
  | some s => t.note (.made s)
  | none => t

/-- A reference begins to check the value at a place. -/
def enter (l : Lookup) (p : Place) (t : Trail) : Trail :=
  { active := (l.serial, p) :: t.active, journal := .entered l p :: t.journal }

/-- The innermost reference is done. -/
def leave (l : Lookup) (p : Place) (t : Trail) : Trail :=
  { active := t.active.tail, journal := .left l p :: t.journal }

end Trail

/-- The answer to a question with the trail behind it ; none if the bound did not suffice. -/
abbrev Answer := Option (Bool × Trail)

/-- Asks a checker about the value at a place. -/
abbrev Ask := Checker → Place → Value → Trail → Answer

/-- Follows a reference with the value at a place. -/
abbrev Refer := Lookup → Place → Value → Trail → Answer

namespace Checker

/-! ## One question -/

/-- Whether one of the checkers accepts ; those after the first that does are not asked. -/
def firstAccepting (ask : Checker → Trail → Answer) : List Checker → Trail → Answer
  | [], t => some (false, t)
  | c :: cs, t =>
    match ask c t with
    | some (false, t) => firstAccepting ask cs t
    | answer => answer

/-- Whether every item is accepted, from index `i` on ; those after the first that is not are not
looked at. -/
def everyItem (ask : Step → Value → Trail → Answer) : Nat → List Value → Trail → Answer
  | _, [], t => some (true, t)
  | i, v :: vs, t =>
    match ask (.index i) v t with
    | some (true, t) => everyItem ask (i + 1) vs t
    | answer => answer

/-- Whether every declared property is accepted or may be missing ; those after the first that
fails are not looked at. -/
def everyProperty (ask : Property → Step → Value → Trail → Answer)
    (fields : List (String × Value)) : List (DeclaredKey × Property) → Trail → Answer
  | [], t => some (true, t)
  | (k, p) :: ps, t =>
    match Keyed.get? k.name fields with
    | none => if k.isOptional then everyProperty ask fields ps t else some (false, t)
    | some v =>
      match ask p (.key k.name) v t with
      | some (true, t) => everyProperty ask fields ps t
      | answer => answer

/-- Asks the checker of a property, which a producer may have to yield first. -/
def askProperty (env : Environment) (ask : Ask) (p : Property) (place : Place) (v : Value)
    (t : Trail) : Answer :=
  match p with
  | .direct c => ask c place v t
  | .produced label c => ask c place v (t.noteMade label)
  | .barren label => some (false, t.noteMade label)
  | .found label a =>
    match Keyed.get? a env with
    | some c => ask c place v (t.noteMade label)
    | none => some (false, (t.noteMade label).note (.unresolved a))
  | .scripted probe yield =>
    match yield t.journal with
    | some c => ask c place v (t.note (.made probe.label))
    | none => some (false, t.note (.made probe.label))

/-- Asks a checker about the value at a place. Further questions go to `ask`, references to
`refer`. -/
def step (env : Environment) (refer : Refer) (ask : Ask) (c : Checker) (place : Place) (v : Value)
    (t : Trail) : Answer :=
  match c with
  | primitive p => some (p.accepts v, t)
  | literal expected =>
    match v with
    | .string s => some (s == expected, t)
    | _ => some (false, t)
  | any cs => firstAccepting (fun c => ask c place v) cs t
  | nullable c =>
    match v with
    | .null => some (true, t)
    | _ => ask c place v t
  | array c =>
    match v with
    | .array items => everyItem (fun s => ask c (place.child s)) 0 items t
    | _ => some (false, t)
  | object ps =>
    match v with
    | .object fields => everyProperty (fun p s => askProperty env ask p (place.child s)) fields ps t
    | _ => some (false, t)
  | reference l => refer l place v t
  | watched probe c => ask c place v (t.note (.asked probe v.kind))
  | scripted probe answer => some (answer t.journal, t.note (.asked probe v.kind))

/-! ## References -/

/-- Follows a reference unless it is checking the value at this place already. -/
def guarded (env : Environment) (ask : Ask) : Refer := fun l place v t =>
  if (l.serial, place) ∈ t.active then some (false, t.note (.reentered l place))
  else
    match Keyed.get? l.address env with
    | none => some (false, ((t.enter l place).note (.unresolved l.address)).leave l place)
    | some c =>
      match ask c place v (t.enter l place) with
      | some (b, t) => some (b, t.leave l place)
      | none => none

end Checker

/-! ## Bounds -/

namespace Environment

/-- How many references stand in a checker and in those that can be found. -/
def lookupCount (env : Environment) (c : Checker) : Nat :=
  c.lookups.length + (env.flatMap fun e => e.2.lookups).length

/-- How large a checker and those that can be found are together. -/
def totalSize (env : Environment) (c : Checker) : Nat :=
  c.size + Checker.sizeAll (env.map Prod.snd)

/-- How many questions about one place can be open at once : each reference may be entered once, and
between two of these events questions go to smaller checkers. -/
def placeBudget (env : Environment) (c : Checker) : Nat :=
  (env.lookupCount c + 1) * (env.totalSize c + 1)

end Environment

namespace Checker

/-- Questions about places of this depth go the one way, and those about other places the other. -/
def split (depth : Nat) (here deeper : Ask) : Ask := fun c place v t =>
  if place.depth = depth then here c place v t else deeper c place v t

/-- Asks about places of a depth, with at most `n` questions about them open at once. -/
def askAt (env : Environment) (deeper : Ask) (depth : Nat) : Nat → Ask
  | 0 => fun _ _ _ _ => none
  | n + 1 =>
    let further := split depth (askAt env deeper depth n) deeper
    step env (guarded env further) further

/-- Asks about values that have fewer levels than `d`. -/
def askDown (env : Environment) : Nat → Ask
  | 0 => fun _ _ _ _ => none
  | d + 1 => fun c place v t =>
    askAt env (askDown env d) place.depth (env.placeBudget c) c place v t

end Checker

namespace Environment

/-! ## Whole checks -/

/-- Checks the value at a place of a larger one, going on with a trail. -/
def checkAt (env : Environment) (c : Checker) (place : Place) (v : Value) (t : Trail) :
    Bool × Trail :=
  (Checker.askDown env (v.depth + 1) c place v t).getD (false, t)

/-- Checks a whole value, going on with a trail. -/
def check (env : Environment) (c : Checker) (v : Value) (t : Trail) : Bool × Trail :=
  env.checkAt c .root v t

/-- Whether a checker accepts a value, with no check in progress. -/
def accepts (env : Environment) (c : Checker) (v : Value) : Bool :=
  (env.check c v .empty).1

end Environment

/-- A value that a checker accepted. -/
structure Checked where
  value : Value

/-- The value, if the checker accepts it. -/
def Environment.narrow (env : Environment) (c : Checker) (v : Value) : Option Checked :=
  if env.accepts c v then some ⟨v⟩ else none

end DataShape
