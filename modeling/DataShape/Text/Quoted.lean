import DataShape.Text.Blank
import DataShape.Text.Faceless

/-!
# Quoted text

A text between quotes, as it stands in descriptions of values and shapes. The quote
and the backslash get a backslash, four control characters have a letter of their
own, and characters without a face are written as their code point in hexadecimal.
-/

namespace DataShape.Text

def isFaceless (c : Char) : Bool :=
  inRanges facelessRanges c.toNat

/-- A character as it stands between quotes. -/
def quotedChar (c : Char) : List Char :=
  if c = '"' then ['\\', '"']
  else if c = '\\' then ['\\', '\\']
  else if c = '\n' then ['\\', 'n']
  else if c = '\r' then ['\\', 'r']
  else if c = '\t' then ['\\', 't']
  else if c.toNat = 0 then ['\\', '0']
  else if isFaceless c then '\\' :: 'u' :: '{' :: (Nat.toDigits 16 c.toNat ++ ['}'])
  else [c]

def quoted (s : String) : List Char :=
  '"' :: (s.toList.flatMap quotedChar ++ ['"'])

end DataShape.Text
