import DataShape.Number.Basic
import DataShape.Text.Blank

/-!
# Numbers as text

`Number.display` writes a number, `Number.parse` reads one. Integers are written
in full, and so are doubles : never with an exponent, and without a fraction when
they are integral. Reading tries an unsigned integer, a signed integer, the three
special spellings and at last a decimal literal, and forgives blanks around the
text.
-/

namespace DataShape.Number

/-- Doubles are written without an exponent and with the fewest digits that read back. -/
def plain : Decimal.Layout where
  positional _ := true
  keepsFraction := false
  tie := .upward

/-- Up to this size an integral double is written as an integer. -/
abbrev largestSafe : Nat := Nat.pow 2 53

/-- The text of the finite double of a rank, which may stand for an integer. -/
def finiteChars (negative : Bool) (rank : Nat) : Option Int → List Char
  | some n =>
    if n.natAbs ≤ largestSafe then Text.intDigits n
    else Text.signed negative (plain.write rank)
  | none => Text.signed negative (plain.write rank)

/-- The text of a number. -/
def displayChars : Number → List Char
  | unsigned n => Text.digits n.toNat
  | signed n => Text.intDigits n.toInt
  | float .nan => "NaN".toList
  | float (.infinite negative) => Text.signed negative "Infinity".toList
  | float (.finite negative rank) =>
    finiteChars negative rank (Binary64.finite negative rank).toInt?

def display (a : Number) : String :=
  String.ofList a.displayChars

/-! ## Reading -/

/-- Why a text is not a number. -/
inductive ParseError where
  | notANumber
deriving DecidableEq, Repr

def ParseError.message : ParseError → String
  | notANumber => "invalid number literal"

/-- A run of digits and nothing else. -/
def natLiteral? (cs : List Char) : Option Nat :=
  if cs ≠ [] ∧ cs.all Char.isDigit then some (Text.ofDigits cs) else none

/-- A run of digits that fits 64 bits, perhaps after a plus sign. -/
def unsignedLiteral? (cs : List Char) : Option UInt64 := do
  let n ← natLiteral? (match cs with | '+' :: r => r | _ => cs)
  if n < UInt64.size then some (UInt64.ofNat n) else none

/-- A run of digits after an optional sign that fits 63 bits and a sign. -/
def signedLiteral? (cs : List Char) : Option Int64 := do
  let n : Int ← match cs with
    | '-' :: r => (natLiteral? r).map fun n => -(n : Int)
    | '+' :: r => (natLiteral? r).map fun n => (n : Int)
    | _ => (natLiteral? cs).map fun n => (n : Int)
  if Int64.minValue.toInt ≤ n ∧ n ≤ Int64.maxValue.toInt then some (Int64.ofInt n) else none

/-- An exponent that takes up the whole text : nothing at all, or a mark, an optional sign and
digits. -/
def exponentLiteral? : List Char → Option Int
  | [] => some 0
  | c :: r =>
    if c = 'e' ∨ c = 'E' then
      match r with
      | '-' :: ds => (natLiteral? ds).map fun n => -(n : Int)
      | '+' :: ds => (natLiteral? ds).map fun n => (n : Int)
      | ds => (natLiteral? ds).map fun n => (n : Int)
    else none

/-- Digits with an optional point among, before or behind them, and an optional exponent. -/
def decimalLiteral? (cs : List Char) : Option Decimal := do
  let (whole, rest) := Text.splitDigits cs
  let (fraction, rest) := match rest with
    | '.' :: r => Text.splitDigits r
    | _ => ([], rest)
  if whole = [] ∧ fraction = [] then none
  else do
    let exponent ← exponentLiteral? rest
    some (Decimal.ofDigits whole fraction exponent)

/-- A double without its sign : a decimal literal or a special name in any case. -/
def magnitudeLiteral? (negative : Bool) (cs : List Char) : Option Binary64 :=
  let name := String.ofList (cs.map Char.toLower)
  if name = "nan" then some .nan
  else if name = "inf" ∨ name = "infinity" then some (.infinite negative)
  else (decimalLiteral? cs).map fun d => d.toBinary64 negative

/-- A double after an optional sign. -/
def floatLiteral? : List Char → Option Binary64
  | '-' :: r => magnitudeLiteral? true r
  | '+' :: r => magnitudeLiteral? false r
  | cs => magnitudeLiteral? false cs

/-- The number a text without blanks around it stands for, the narrowest kind first. -/
def literal? (cs : List Char) : Option Number :=
  match unsignedLiteral? cs with
  | some n => some (unsigned n)
  | none =>
    match signedLiteral? cs with
    | some n => some (signed n)
    | none => (floatLiteral? cs).map float

/-- The number a text stands for. -/
def parse (s : String) : Except ParseError Number :=
  match literal? (Text.trimChars s.toList) with
  | some a => .ok a
  | none => .error .notANumber

end DataShape.Number
