/-!
# Declared keys

A key of an object shape is a property name followed by a run of question marks.
The run is read in pairs : two marks stand for one mark of the name, and a mark
left over makes the property optional. Marks before the run belong to the name.

Reading (`name`, `isOptional`) and writing (`ofName`) are inverse to each other,
so every name, with or without marks of its own, has one mandatory and one
optional key.
-/

namespace DataShape

/-- A property name as it is declared in a shape. -/
structure DeclaredKey where
  declared : String
deriving DecidableEq, Repr

namespace DeclaredKey

def isMark (c : Char) : Bool :=
  c == '?'

/-- How many marks a text ends in. -/
def trailingMarks (cs : List Char) : Nat :=
  (cs.reverse.takeWhile isMark).length

/-- A text without the marks it ends in. -/
def withoutMarks (cs : List Char) : List Char :=
  (cs.reverse.dropWhile isMark).reverse

/-- The name of the property that is looked up in a value. -/
def nameChars (cs : List Char) : List Char :=
  withoutMarks cs ++ List.replicate (trailingMarks cs / 2) '?'

def name (k : DeclaredKey) : String :=
  String.ofList (nameChars k.declared.toList)

/-- Whether the property may be missing. -/
def isOptional (k : DeclaredKey) : Bool :=
  trailingMarks k.declared.toList % 2 == 1

/-- The key that declares `name` : each mark the name ends in is written twice, and one more mark
follows if the property is optional. -/
def ofName (name : String) (optional : Bool) : DeclaredKey :=
  let cs := name.toList
  ⟨String.ofList (cs ++ List.replicate (trailingMarks cs + optional.toNat) '?')⟩

end DeclaredKey

end DataShape
