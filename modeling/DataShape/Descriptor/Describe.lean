import DataShape.Descriptor.Basic
import DataShape.Text.Description

/-!
# Describing descriptors

The description of a descriptor spells out how it is put together.
-/

namespace DataShape

open Text (quoted applied listed tuple)

def Primitive.title : Primitive → String
  | string => "String"
  | number => "Number"
  | boolean => "Boolean"
  | null => "Null"
  | unknown => "Unknown"

namespace Descriptor

mutual
def describeChars : Descriptor → List Char
  | kind p => p.title.toList
  | literal s => applied "Literal" (quoted s)
  | any ds => applied "Any" (listed (describeItems ds))
  | nullable d => applied "Nullable" (describeChars d)
  | array d => applied "Array" (describeChars d)
  | object ps => applied "Object" (listed (describeProperties ps))
  | ref name => applied "Ref" (quoted name)

def describeItems : List Descriptor → List (List Char)
  | [] => []
  | d :: ds => describeChars d :: describeItems ds

def describeProperties : List (String × Descriptor) → List (List Char)
  | [] => []
  | (k, d) :: ps => tuple [quoted k, describeChars d] :: describeProperties ps
end

def describe (d : Descriptor) : String :=
  String.ofList d.describeChars

end Descriptor

end DataShape
