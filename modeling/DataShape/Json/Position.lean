import DataShape.Text.Digits

/-!
# Messages with positions

An error that arises while data are being converted has only its message. If the
message ends in a line and a column, these are taken for the position of the error
and written behind the message again : as plain numbers, and not at all if the
line is zero.
-/

namespace DataShape.Json

/-- A text cut at the last place where a pattern stands in it. -/
def splitAtLast (pattern : List Char) : List Char → Option (List Char × List Char)
  | [] => none
  | c :: r =>
    match splitAtLast pattern r with
    | some (before, after) => some (c :: before, after)
    | none =>
      if pattern.isPrefixOf (c :: r) then some ([], (c :: r).drop pattern.length) else none

/-- A run of digits that fits 64 bits. -/
def wordOfDigits? (cs : List Char) : Option Nat :=
  if cs ≠ [] ∧ Text.ofDigits cs < UInt64.size then some (Text.ofDigits cs) else none

/-- A message that ends in a position, taken apart into message, line and column. -/
def position? (message : List Char) : Option (List Char × Nat × Nat) := do
  let (before, after) ← splitAtLast " at line ".toList message
  let (line, rest) := Text.splitDigits after
  if " column ".toList.isPrefixOf rest then
    let (column, rest) := Text.splitDigits (rest.drop " column ".length)
    if rest ≠ [] then none
    else do
      let line ← wordOfDigits? line
      let column ← wordOfDigits? column
      some (before, line, column)
  else none

/-- The message of an error, its position written behind it. -/
def settled (message : String) : String :=
  match position? message.toList with
  | none => message
  | some (before, 0, _) => String.ofList before
  | some (before, line, column) =>
    String.ofList (before ++ " at line ".toList ++ Text.digits line ++ " column ".toList ++
      Text.digits column)

end DataShape.Json
