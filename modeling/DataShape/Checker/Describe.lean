import DataShape.Checker.Check
import DataShape.Shape
import DataShape.Value.Describe

/-!
# Describing checkers

The description of a checker shows how it is put together, as far as that can be
seen from outside : of a property only whether its checker is there or deferred,
of a reference or an instrument nothing at all.
-/

namespace DataShape

open Text (quoted applied listed tuple record)

def DeclaredKey.describeChars (k : DeclaredKey) : List Char :=
  record "DeclaredProperty"
    [("declared", quoted k.declared), ("name", quoted k.name), ("optional", Text.bool k.isOptional)]

def Property.describe (p : Property) : String :=
  if p.isDirect then "Direct" else "Deferred"

def describeProperty (p : DeclaredKey × Property) : List Char :=
  tuple [p.1.describeChars, p.2.describe.toList]

/-- The description of the shape that declares these properties. -/
def describeProperties (ps : List (DeclaredKey × Property)) : List Char :=
  record "Shape" [("properties", listed (ps.map describeProperty))]

def Shape.describe (s : Shape) : String :=
  String.ofList (describeProperties s.properties)

def Primitive.describe : Primitive → String
  | string => "StringChecker"
  | number => "NumberChecker"
  | boolean => "BooleanChecker"
  | null => "NilChecker"
  | unknown => "UnknownChecker"

namespace Checker

mutual
def describeChars : Checker → List Char
  | primitive p => p.describe.toList
  | literal s => record "Literal" [("expected", quoted s)]
  | any cs => record "AnyOf" [("checkers", listed (describeAll cs))]
  | nullable c => record "Nullable" [("inner", describeChars c)]
  | array c => record "ArrayOf" [("element", describeChars c)]
  | object ps => record "ObjectChecker" [("shape", describeProperties ps)]
  | _ => "Checker".toList

def describeAll : List Checker → List (List Char)
  | [] => []
  | c :: cs => describeChars c :: describeAll cs
end

def describe (c : Checker) : String :=
  String.ofList c.describeChars

end Checker

def Checked.describe (c : Checked) : String :=
  String.ofList (applied "Checked" c.value.describeChars)

end DataShape
