import Shading.Struct
import Shading.Text.Quoted

/-!
# Descriptions of types

How reports spell primitive types, types, fields and struct definitions.
-/

namespace Shading

def Dim.describe : Dim → String
  | one => "Scalar"
  | two => "D2"
  | three => "D3"
  | four => "D4"

def MatrixShape.describe : MatrixShape → String
  | two2 => "D22"
  | three3 => "D33"
  | four4 => "D44"
  | four3 => "D43"

def Scalar.describe : Scalar → String
  | int => "Int"
  | uint => "UInt"
  | float => "Float"
  | bool => "Bool"

def Prim.describe : Prim → String
  | vector s d => s.describe ++ "(" ++ d.describe ++ ")"
  | matrix m => "Matrix(" ++ m.describe ++ ")"

def Ty.describe (t : Ty) : String :=
  "Type \x7b prim_ty: " ++ t.prim.describe ++ ", array_dims: [" ++
    ", ".intercalate (t.dims.map toString) ++ "] \x7d"

mutual

/-- What a field holds, without its name. -/
def Field.describe : Field → String
  | .value _ t => "Value(" ++ t.describe ++ ")"
  | .nested _ s none => "Struct(" ++ StructDef.describe s ++ ")"
  | .nested _ s (some n) => "StructArray(" ++ StructDef.describe s ++ ", " ++ toString n ++ ")"

def Field.describeAll : List Field → List String
  | [] => []
  | f :: fs => ("(" ++ Text.quote f.name ++ ", " ++ Field.describe f ++ ")") :: Field.describeAll fs

def StructDef.describe : StructDef → String
  | .mk n fs =>
    "StructDef \x7b name: " ++ Text.quote n ++ ", fields: [" ++
      ", ".intercalate (Field.describeAll fs) ++ "] \x7d"

end

end Shading
