import Shading.Type
import Shading.Number.Binary32

/-!
# Literals

Values written directly in a shader: scalars and vectors of the four scalar kinds, and float
matrices as lists of columns.
-/

namespace Shading

/-- A constant value of a primitive type. -/
inductive Literal where
  | int (dim : Dim) (values : Vector Int32 dim.size)
  | uint (dim : Dim) (values : Vector UInt32 dim.size)
  | float (dim : Dim) (values : Vector Binary32 dim.size)
  | bool (dim : Dim) (values : Vector Bool dim.size)
  | matrix (shape : MatrixShape) (columns : Vector (Vector Binary32 shape.rows) shape.columns)

namespace Literal

def prim : Literal → Prim
  | int d _ => .vector .int d
  | uint d _ => .vector .uint d
  | float d _ => .vector .float d
  | bool d _ => .vector .bool d
  | matrix m _ => .matrix m

/-- Whether every component is minus one.  Unsigned, boolean and matrix literals never are. -/
def isMinusOne : Literal → Bool
  | int _ v => v.all (· == -1)
  | float _ v => v.all (·.sameValue Binary32.minusOne)
  | uint .. => false
  | bool .. => false
  | matrix .. => false

end Literal

end Shading
