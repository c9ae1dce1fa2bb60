import DataShape.Fields
import DataShape.Number.Basic

/-!
# Values

The data that checkers look at. Besides the six kinds of JSON there is
`undefined`, the value of something that is not there ; it differs from `null`.
Numbers may be infinite or not-a-number. The fields of an object ascend in their
keys (`Value.Ordered`), and `Value.ofFields` builds objects that way.

Equality is numeric on numbers and structural otherwise, so a value that holds
not-a-number anywhere differs from itself.
-/

namespace DataShape

/-- What a value is, as far as primitive checkers can see. -/
inductive Kind where
  | null
  | boolean
  | number
  | string
  | array
  | object
  | undefined
deriving DecidableEq, Repr

def Kind.name : Kind → String
  | null => "null"
  | boolean => "boolean"
  | number => "number"
  | string => "string"
  | array => "array"
  | object => "object"
  | undefined => "undefined"

/-- A value. -/
inductive Value where
  | null
  | bool (b : Bool)
  | number (n : Number)
  | string (s : String)
  | array (items : List Value)
  | object (fields : List (String × Value))
  | undefined
deriving Repr, Inhabited

namespace Value

/-- Induction on a value, with the hypothesis for every item and every field. -/
@[elab_as_elim, induction_eliminator]
theorem induction {P : Value → Prop} (null : P null) (bool : ∀ b, P (bool b))
    (number : ∀ n, P (number n)) (string : ∀ s, P (string s))
    (array : ∀ items, (∀ v ∈ items, P v) → P (array items))
    (object : ∀ fields, (∀ f ∈ fields, P f.2) → P (object fields)) (undefined : P undefined)
    (v : Value) : P v :=
  @Value.rec P (fun vs => ∀ v ∈ vs, P v) (fun fs => ∀ f ∈ fs, P f.2) (fun f => P f.2)
    null bool number string array object undefined
    (fun _ h => nomatch h) (fun _ _ hv hvs => List.forall_mem_cons.2 ⟨hv, hvs⟩)
    (fun _ h => nomatch h) (fun _ _ hf hfs => List.forall_mem_cons.2 ⟨hf, hfs⟩)
    (fun _ _ hv => hv) v

def kind : Value → Kind
  | null => .null
  | bool _ => .boolean
  | number _ => .number
  | string _ => .string
  | array _ => .array
  | object _ => .object
  | undefined => .undefined

/-- The object with these fields, the last one for each key. -/
def ofFields (es : List (String × Value)) : Value :=
  object (Fields.ofList es)

mutual
/-- The fields of every object ascend in their keys. -/
def Ordered : Value → Prop
  | array items => OrderedItems items
  | object fields => Fields.Sorted fields ∧ OrderedFields fields
  | _ => True

def OrderedItems : List Value → Prop
  | [] => True
  | v :: vs => Ordered v ∧ OrderedItems vs

def OrderedFields : List (String × Value) → Prop
  | [] => True
  | (_, v) :: fs => Ordered v ∧ OrderedFields fs
end

mutual
/-- Equality of values. -/
def equal : Value → Value → Bool
  | null, null => true
  | bool a, bool b => a == b
  | number m, number n => m.equal n
  | string s, string t => s == t
  | array us, array vs => equalItems us vs
  | object fs, object gs => equalFields fs gs
  | undefined, undefined => true
  | _, _ => false

def equalItems : List Value → List Value → Bool
  | [], [] => true
  | u :: us, v :: vs => equal u v && equalItems us vs
  | _, _ => false

def equalFields : List (String × Value) → List (String × Value) → Bool
  | [], [] => true
  | (k, u) :: fs, (l, v) :: gs => k == l && equal u v && equalFields fs gs
  | _, _ => false
end

mutual
/-- How many containers are nested in a value. -/
def depth : Value → Nat
  | array items => depthItems items + 1
  | object fields => depthFields fields + 1
  | _ => 0

def depthItems : List Value → Nat
  | [] => 0
  | v :: vs => max (depth v) (depthItems vs)

def depthFields : List (String × Value) → Nat
  | [] => 0
  | (_, v) :: fs => max (depth v) (depthFields fs)
end

/-- A number occurs in a value, at any depth. -/
inductive Holds (a : Number) : Value → Prop where
  | number : Holds a (number a)
  | item {items : List Value} {v : Value} : v ∈ items → Holds a v → Holds a (array items)
  | field {fields : List (String × Value)} {f : String × Value} :
      f ∈ fields → Holds a f.2 → Holds a (object fields)

section Holds

variable {a : Number}

theorem holds_undefined : ¬ undefined.Holds a :=
  nofun

theorem holds_number {b : Number} : (number b).Holds a ↔ a = b :=
  ⟨fun h => by cases h; rfl, fun h => h ▸ .number⟩

theorem holds_array {items : List Value} : (array items).Holds a ↔ ∃ v ∈ items, v.Holds a := by
  refine ⟨fun h => ?_, fun ⟨_, hv, h⟩ => .item hv h⟩
  cases h with
  | item hv h => exact ⟨_, hv, h⟩

theorem holds_object {fields : List (String × Value)} :
    (object fields).Holds a ↔ ∃ f ∈ fields, f.2.Holds a := by
  refine ⟨fun h => ?_, fun ⟨_, hf, h⟩ => .field hf h⟩
  cases h with
  | field hf h => exact ⟨_, hf, h⟩

end Holds

theorem depth_le_depthItems {v : Value} {vs : List Value} (h : v ∈ vs) :
    v.depth ≤ depthItems vs := by
  induction vs with
  | nil => cases h
  | cons w ws ih =>
    rcases List.mem_cons.1 h with rfl | h
    · exact Nat.le_max_left ..
    · exact Nat.le_trans (ih h) (Nat.le_max_right ..)

theorem depth_le_depthFields {k : String} {v : Value} {fs : List (String × Value)}
    (h : (k, v) ∈ fs) : v.depth ≤ depthFields fs := by
  induction fs with
  | nil => cases h
  | cons f fs ih =>
    rcases List.mem_cons.1 h with rfl | h
    · exact Nat.le_max_left ..
    · exact Nat.le_trans (ih h) (Nat.le_max_right ..)

theorem depthItems_le {vs : List Value} {n : Nat} (h : ∀ v ∈ vs, v.depth ≤ n) :
    depthItems vs ≤ n := by
  induction vs with
  | nil => exact Nat.zero_le n
  | cons v vs ih =>
    obtain ⟨hv, hvs⟩ := List.forall_mem_cons.1 h
    exact Nat.max_le.2 ⟨hv, ih hvs⟩

theorem depthFields_le {fs : List (String × Value)} {n : Nat} (h : ∀ f ∈ fs, f.2.depth ≤ n) :
    depthFields fs ≤ n := by
  induction fs with
  | nil => exact Nat.zero_le n
  | cons f fs ih =>
    obtain ⟨hf, hfs⟩ := List.forall_mem_cons.1 h
    exact Nat.max_le.2 ⟨hf, ih hfs⟩

/-! ## Taking values apart -/

/-- A value was asked for what it is not. -/
inductive AccessError where
  | notBool
  | notString
  | notNumber
  | notArray
  | notObject
deriving DecidableEq, Repr

def AccessError.message : AccessError → String
  | notBool => "not a bool"
  | notString => "not a string"
  | notNumber => "not a number"
  | notArray => "not an array"
  | notObject => "not an object"

def isNull : Value → Bool
  | null => true
  | _ => false

def isUndefined : Value → Bool
  | undefined => true
  | _ => false

def asBool : Value → Except AccessError Bool
  | bool b => .ok b
  | _ => .error .notBool

def asString : Value → Except AccessError String
  | string s => .ok s
  | _ => .error .notString

def asNumber : Value → Except AccessError Number
  | number n => .ok n
  | _ => .error .notNumber

def asArray : Value → Except AccessError (List Value)
  | array items => .ok items
  | _ => .error .notArray

def asObject : Value → Except AccessError (List (String × Value))
  | object fields => .ok fields
  | _ => .error .notObject

/-- The field at a key, if the value is an object that has it. -/
def field? (k : String) : Value → Option Value
  | object fields => Keyed.get? k fields
  | _ => none

end Value

end DataShape
