import DataShape.Json.Document

/-!
# Writing JSON

Two layouts : `Document.compact` without any blanks, and `Document.pretty` with
two blanks for each level of nesting. Strings escape the quote, the backslash and
the control characters, and nothing else. Doubles are written with the fewest
digits that read back, positionally from `0.00001` up to `10 ^ 16` and always with
a fraction there, otherwise with a signed exponent ; a double that is not finite
has no numeral and is written as `null`.
-/

namespace DataShape.Json

/-- How doubles are written. -/
def doubles : Decimal.Layout where
  positional e := -5 ≤ e && e < 16
  keepsFraction := true
  tie := .toEven

def Numeral.chars : Numeral → List Char
  | natural n => Text.digits n.toNat
  | negative n => Text.intDigits n.toInt
  | real (.finite minus rank) => Text.signed minus (doubles.write rank)
  | real _ => "null".toList

/-! ## Strings -/

def hexDigit (n : Nat) : Char :=
  if n < 10 then Char.ofNat (48 + n) else Char.ofNat (87 + n)

/-- A character as it stands in a string. -/
def escapeChar (c : Char) : List Char :=
  if c = '"' then ['\\', '"']
  else if c = '\\' then ['\\', '\\']
  else if c = '\n' then ['\\', 'n']
  else if c = '\r' then ['\\', 'r']
  else if c = '\t' then ['\\', 't']
  else if c.toNat = 8 then ['\\', 'b']
  else if c.toNat = 12 then ['\\', 'f']
  else if c.toNat < 32 then
    ['\\', 'u', '0', '0', hexDigit (c.toNat / 16), hexDigit (c.toNat % 16)]
  else [c]

/-- A string with its quotes. -/
def quote (s : String) : List Char :=
  '"' :: (s.toList.flatMap escapeChar ++ ['"'])

namespace Document

/-! ## Compact text -/

mutual
/-- The text of a document without blanks, in front of a rest. -/
def compactOnto : Document → List Char → List Char
  | .null, rest => "null".toList ++ rest
  | .bool true, rest => "true".toList ++ rest
  | .bool false, rest => "false".toList ++ rest
  | .number n, rest => n.chars ++ rest
  | .string s, rest => quote s ++ rest
  | .array [], rest => '[' :: ']' :: rest
  | .array (d :: ds), rest => '[' :: compactOnto d (compactItems ds rest)
  | .object [], rest => '{' :: '}' :: rest
  | .object ((k, d) :: ms), rest =>
    '{' :: (quote k ++ ':' :: compactOnto d (compactMembers ms rest))

/-- The items after the first and the closing bracket. -/
def compactItems : List Document → List Char → List Char
  | [], rest => ']' :: rest
  | d :: ds, rest => ',' :: compactOnto d (compactItems ds rest)

/-- The members after the first and the closing brace. -/
def compactMembers : List (String × Document) → List Char → List Char
  | [], rest => '}' :: rest
  | (k, d) :: ms, rest => ',' :: (quote k ++ ':' :: compactOnto d (compactMembers ms rest))
end

/-- The text of a document without blanks. -/
def compact (d : Document) : String :=
  String.ofList (d.compactOnto [])

/-! ## Indented text -/

/-- A new line at a level of nesting. -/
def newLine (level : Nat) : List Char :=
  '\n' :: List.replicate (2 * level) ' '

mutual
/-- The text of a document that stands at a level of nesting, in front of a rest. -/
def prettyOnto (level : Nat) : Document → List Char → List Char
  | .null, rest => "null".toList ++ rest
  | .bool true, rest => "true".toList ++ rest
  | .bool false, rest => "false".toList ++ rest
  | .number n, rest => n.chars ++ rest
  | .string s, rest => quote s ++ rest
  | .array [], rest => '[' :: ']' :: rest
  | .array (d :: ds), rest =>
    '[' :: (newLine (level + 1) ++ prettyOnto (level + 1) d (prettyItems level ds rest))
  | .object [], rest => '{' :: '}' :: rest
  | .object ((k, d) :: ms), rest =>
    '{' :: (newLine (level + 1) ++ quote k ++ ':' :: ' ' ::
      prettyOnto (level + 1) d (prettyMembers level ms rest))

/-- The items after the first and the closing bracket, of an array at a level of nesting. -/
def prettyItems (level : Nat) : List Document → List Char → List Char
  | [], rest => newLine level ++ ']' :: rest
  | d :: ds, rest =>
    ',' :: (newLine (level + 1) ++ prettyOnto (level + 1) d (prettyItems level ds rest))

/-- The members after the first and the closing brace, of an object at a level of nesting. -/
def prettyMembers (level : Nat) : List (String × Document) → List Char → List Char
  | [], rest => newLine level ++ '}' :: rest
  | (k, d) :: ms, rest =>
    ',' :: (newLine (level + 1) ++ quote k ++ ':' :: ' ' ::
      prettyOnto (level + 1) d (prettyMembers level ms rest))
end

/-- The text of a document with two blanks for each level of nesting. -/
def pretty (d : Document) : String :=
  String.ofList (d.prettyOnto 0 [])

end Document

end DataShape.Json
