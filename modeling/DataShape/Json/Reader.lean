import DataShape.Json.Conversion
import DataShape.Json.Document

/-!
# Reading JSON

A reader takes a text from its front and gives the construct it finds there and
what is left, or a `Fault`. The first fault in the order of the text decides, and
there are two : the text ends where more was due, or a character stands where it
cannot.

`value` reads with any builder, and with any conversion of numerals to doubles. At
most `depth` containers may be open at once ; the one too many is a fault at its
opening bracket. The loops over items and members carry a bound on their rounds, and
the length of the text is always enough since every round takes at least a character.
-/

namespace DataShape.Json

/-- Why a text is not JSON. -/
inductive Fault where
  | endsEarly
  | malformed
deriving DecidableEq, Repr

/-- Space, tab, line feed and carriage return. -/
def isBlank (c : Char) : Bool :=
  c = ' ' || c = '\n' || c = '\t' || c = '\r'

def skipBlanks (cs : List Char) : List Char :=
  cs.dropWhile isBlank

/-- The text after a word that is due. -/
def expectWord : List Char → List Char → Except Fault (List Char)
  | [], cs => .ok cs
  | _ :: _, [] => .error .endsEarly
  | w :: ws, c :: cs => if c = w then expectWord ws cs else .error .malformed

/-! ## Numerals -/

/-- A run of digits where at least one is due. -/
def someDigits (cs : List Char) : Except Fault (List Char × List Char) :=
  match Text.splitDigits cs with
  | ([], []) => .error .endsEarly
  | ([], _ :: _) => .error .malformed
  | (d :: ds, r) => .ok (d :: ds, r)

/-- The digits before the point : a zero that no digit follows, or digits that start with none. -/
def wholePart (cs : List Char) : Except Fault (List Char × List Char) :=
  match cs with
  | '0' :: r =>
    match r with
    | c :: _ => if c.isDigit then .error .malformed else .ok (['0'], r)
    | [] => .ok (['0'], r)
  | _ => someDigits cs

/-- The digits behind a point, if there is one. -/
def fractionPart : List Char → Except Fault (Option (List Char) × List Char)
  | '.' :: r => (someDigits r).map fun p => (some p.1, p.2)
  | cs => .ok (none, cs)

/-- The exponent, if there is one. -/
def exponentPart : List Char → Except Fault (Option Int × List Char)
  | [] => .ok (none, [])
  | c :: r =>
    if c = 'e' || c = 'E' then
      match r with
      | '-' :: ds => (someDigits ds).map fun p => (some (-(Text.ofDigits p.1 : Int)), p.2)
      | '+' :: ds => (someDigits ds).map fun p => (some (Text.ofDigits p.1 : Int), p.2)
      | ds => (someDigits ds).map fun p => (some (Text.ofDigits p.1 : Int), p.2)
    else .ok (none, c :: r)

section Numerals

variable (convert : Conversion)

/-- A double, which must not be too large. -/
def realNumeral (minus : Bool) (whole fraction : List Char) (exponent : Int) :
    Except Fault Numeral :=
  match convert minus whole fraction exponent with
  | some x => .ok (.real x)
  | none => .error .malformed

/-- The kind of a numeral : digits alone are an integer if they fit 64 bits, with a minus sign if
they fit 63 and are not zero ; everything else is a double. -/
def classify (minus : Bool) (whole : List Char) (fraction : Option (List Char))
    (exponent : Option Int) : Except Fault Numeral :=
  match fraction, exponent with
  | none, none =>
    let n := Text.ofDigits whole
    if minus then
      if 0 < n ∧ Int64.minValue.toInt ≤ -(n : Int) then .ok (.negative (Int64.ofInt (-(n : Int))))
      else realNumeral convert minus whole [] 0
    else if n < UInt64.size then .ok (.natural (UInt64.ofNat n))
    else realNumeral convert minus whole [] 0
  | _, _ => realNumeral convert minus whole (fraction.getD []) (exponent.getD 0)

/-- A numeral without its minus sign. -/
def unsignedNumeral (minus : Bool) (cs : List Char) : Except Fault (Numeral × List Char) := do
  let (whole, cs) ← wholePart cs
  let (fraction, cs) ← fractionPart cs
  let (exponent, cs) ← exponentPart cs
  let n ← classify convert minus whole fraction exponent
  return (n, cs)

def numeral : List Char → Except Fault (Numeral × List Char)
  | '-' :: r => unsignedNumeral convert true r
  | cs => unsignedNumeral convert false cs

end Numerals

/-! ## Strings -/

/-- The character that a backslash and this letter stand for. -/
def unescape? (c : Char) : Option Char :=
  if c = '"' then some '"'
  else if c = '\\' then some '\\'
  else if c = '/' then some '/'
  else if c = 'b' then some (Char.ofNat 8)
  else if c = 'f' then some (Char.ofNat 12)
  else if c = 'n' then some '\n'
  else if c = 'r' then some '\r'
  else if c = 't' then some '\t'
  else none

def hexValue? (c : Char) : Option Nat :=
  if c.isDigit then some (c.toNat - 48)
  else if 'a' ≤ c ∧ c ≤ 'f' then some (c.toNat - 87)
  else if 'A' ≤ c ∧ c ≤ 'F' then some (c.toNat - 55)
  else none

def hexQuad? (a b c d : Char) : Option Nat := do
  let a ← hexValue? a
  let b ← hexValue? b
  let c ← hexValue? c
  let d ← hexValue? d
  return ((a * 16 + b) * 16 + c) * 16 + d

/-- Four bytes of hexadecimal digits are due and are not there : the text ends early if fewer than
four bytes are left of it. -/
def missingQuad (cs : List Char) : Fault :=
  if (String.ofList (cs.take 4)).utf8ByteSize < 4 then .endsEarly else .malformed

def isHighSurrogate (u : Nat) : Bool :=
  0xD800 ≤ u && u < 0xDC00

def isLowSurrogate (u : Nat) : Bool :=
  0xDC00 ≤ u && u < 0xE000

/-- The character of a pair of surrogates. -/
def ofSurrogates (high low : Nat) : Char :=
  Char.ofNat (0x10000 + (high - 0xD800) * 0x400 + (low - 0xDC00))

/-- The characters of a string behind its opening quote, up to the closing one. -/
def stringBody : List Char → Except Fault (List Char × List Char)
  | [] => .error .endsEarly
  | '"' :: r => .ok ([], r)
  | '\\' :: [] => .error .endsEarly
  | '\\' :: 'u' :: a :: b :: c :: d :: r =>
    match hexQuad? a b c d with
    | none => .error (missingQuad (a :: b :: c :: d :: r))
    | some u =>
      if isLowSurrogate u then .error .malformed
      else if isHighSurrogate u then
        match r with
        | [] => .error .endsEarly
        | '\\' :: [] => .error .endsEarly
        | '\\' :: 'u' :: a' :: b' :: c' :: d' :: r' =>
          match hexQuad? a' b' c' d' with
          | none => .error (missingQuad (a' :: b' :: c' :: d' :: r'))
          | some l =>
            if isLowSurrogate l then
              (stringBody r').map fun p => (ofSurrogates u l :: p.1, p.2)
            else .error .malformed
        | '\\' :: 'u' :: cs => .error (missingQuad cs)
        | _ => .error .malformed
      else (stringBody r).map fun p => (Char.ofNat u :: p.1, p.2)
  | '\\' :: 'u' :: cs => .error (missingQuad cs)
  | '\\' :: e :: r =>
    match unescape? e with
    | some c => (stringBody r).map fun p => (c :: p.1, p.2)
    | none => .error .malformed
  | c :: r =>
    if c.toNat < 32 then .error .malformed
    else (stringBody r).map fun p => (c :: p.1, p.2)

/-- A string behind its opening quote. -/
def string (cs : List Char) : Except Fault (String × List Char) :=
  (stringBody cs).map fun p => (String.ofList p.1, p.2)

/-! ## Containers -/

section Containers

variable {α : Type} (read : List Char → Except Fault (α × List Char))

/-- The items of an array from the next one on, and its closing bracket. -/
def items : Nat → List Char → Except Fault (List α × List Char)
  | 0, _ => .error .endsEarly
  | n + 1, cs => do
    let (x, cs) ← read cs
    match skipBlanks cs with
    | [] => .error .endsEarly
    | ']' :: r => .ok ([x], r)
    | ',' :: r =>
      match skipBlanks r with
      | ']' :: _ => .error .malformed
      | r => do
        let (xs, r) ← items n r
        return (x :: xs, r)
    | _ => .error .malformed

/-- A key, the colon behind it and its value. -/
def member : List Char → Except Fault ((String × α) × List Char)
  | [] => .error .endsEarly
  | '"' :: r => do
    let (k, cs) ← string r
    match skipBlanks cs with
    | [] => .error .endsEarly
    | ':' :: r => do
      let (x, r) ← read r
      return ((k, x), r)
    | _ => .error .malformed
  | _ => .error .malformed

/-- The members of an object from the next one on, and its closing brace. -/
def members : Nat → List Char → Except Fault (List (String × α) × List Char)
  | 0, _ => .error .endsEarly
  | n + 1, cs => do
    let (m, cs) ← member read cs
    match skipBlanks cs with
    | [] => .error .endsEarly
    | '}' :: r => .ok ([m], r)
    | ',' :: r => do
      let (ms, r) ← members n (skipBlanks r)
      return (m :: ms, r)
    | _ => .error .malformed

/-- An array behind its opening bracket. -/
def arrayBody (rounds : Nat) (cs : List Char) : Except Fault (List α × List Char) :=
  match skipBlanks cs with
  | [] => .error .endsEarly
  | ']' :: r => .ok ([], r)
  | cs => items read rounds cs

/-- An object behind its opening brace. -/
def objectBody (rounds : Nat) (cs : List Char) : Except Fault (List (String × α) × List Char) :=
  match skipBlanks cs with
  | '}' :: r => .ok ([], r)
  | cs => members read rounds cs

end Containers

/-! ## Values -/

section Values

variable (convert : Conversion) {α : Type} (b : Builder α)

/-- Reads one value with at most `depth` containers open at once. -/
def value (rounds : Nat) :
    (depth : Nat) → List Char → Except Fault (α × List Char)
  | depth, cs =>
    match skipBlanks cs with
    | [] => .error .endsEarly
    | 'n' :: r => (expectWord ['u', 'l', 'l'] r).map fun r => (b.null, r)
    | 't' :: r => (expectWord ['r', 'u', 'e'] r).map fun r => (b.bool true, r)
    | 'f' :: r => (expectWord ['a', 'l', 's', 'e'] r).map fun r => (b.bool false, r)
    | '"' :: r => (string r).map fun p => (b.string p.1, p.2)
    | '[' :: r =>
      match depth with
      | 0 => .error .malformed
      | depth + 1 => (arrayBody (value rounds depth) rounds r).map fun p => (b.array p.1, p.2)
    | '{' :: r =>
      match depth with
      | 0 => .error .malformed
      | depth + 1 => (objectBody (value rounds depth) rounds r).map fun p => (b.object p.1, p.2)
    | c :: r =>
      if c = '-' || c.isDigit then (numeral convert (c :: r)).map fun p => (b.number p.1, p.2)
      else .error .malformed

/-! ## Whole texts -/

/-- How many containers may be open at once in a text. -/
abbrev depthLimit : Nat := 127

/-- The value at the front of a text and what is left behind it. -/
def readFront (depth : Nat) (text : List Char) : Except Fault (α × List Char) :=
  value convert b text.length depth text

/-- Nothing but blanks may stand behind a value. -/
def expectEnd (cs : List Char) : Except Fault Unit :=
  match skipBlanks cs with
  | [] => .ok ()
  | _ :: _ => .error .malformed

/-- The value a text stands for, with a limit of its own for open containers. -/
def readWithin (depth : Nat) (text : String) : Except Fault α := do
  let (x, rest) ← readFront convert b depth text.toList
  expectEnd rest
  return x

/-- The value a text stands for. -/
def read (text : String) : Except Fault α :=
  readWithin convert b depthLimit text

end Values

end DataShape.Json
