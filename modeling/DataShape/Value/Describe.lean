import DataShape.Value.Basic
import DataShape.Number.Text
import DataShape.Text.Description

/-!
# Describing values

The description of a value names its kind and what it holds, for messages to
developers. Unlike the JSON text it shows `undefined` and the numbers that are not
finite for what they are.
-/

namespace DataShape.Value

open Text (quoted applied listed mapped labelled)

mutual
def describeChars : Value → List Char
  | null => "Null".toList
  | bool b => applied "Bool" (Text.bool b)
  | number n => applied "Number" n.displayChars
  | string s => applied "String" (quoted s)
  | array items => applied "Array" (listed (describeItems items))
  | object fields => applied "Object" (mapped (describeFields fields))
  | undefined => "Undefined".toList

def describeItems : List Value → List (List Char)
  | [] => []
  | v :: vs => describeChars v :: describeItems vs

def describeFields : List (String × Value) → List (List Char)
  | [] => []
  | (k, v) :: fs => labelled (quoted k) (describeChars v) :: describeFields fs
end

def describe (v : Value) : String :=
  String.ofList v.describeChars

end DataShape.Value
