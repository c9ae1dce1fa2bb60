import DataShape.Text.Quoted

/-!
# Descriptions

Texts that show developers how a thing is put together. A thing with one part is
its name `applied` to the part, a thing with labelled parts is a `record`, and parts
that stand side by side are `listed`, a `tuple` or `mapped` from keys.
-/

namespace DataShape.Text

/-- Texts in a row with a comma and a blank between them. -/
def commaSeparated (parts : List (List Char)) : List Char :=
  List.intercalate [',', ' '] parts

def bool (b : Bool) : List Char :=
  (if b then "true" else "false").toList

/-- A label or a key with its part. -/
def labelled (label part : List Char) : List Char :=
  label ++ ':' :: ' ' :: part

/-- Parts in brackets. -/
def listed (parts : List (List Char)) : List Char :=
  '[' :: (commaSeparated parts ++ [']'])

/-- Parts in parentheses. -/
def tuple (parts : List (List Char)) : List Char :=
  '(' :: (commaSeparated parts ++ [')'])

/-- Parts with their keys in braces. -/
def mapped (parts : List (List Char)) : List Char :=
  '{' :: (commaSeparated parts ++ ['}'])

/-- A name and its one part. -/
def applied (name : String) (part : List Char) : List Char :=
  name.toList ++ tuple [part]

/-- A name and its labelled parts. -/
def record (name : String) (parts : List (String × List Char)) : List Char :=
  name.toList ++ ' ' :: '{' :: ' ' ::
    (commaSeparated (parts.map fun p => labelled p.1.toList p.2) ++ [' ', '}'])

end DataShape.Text
