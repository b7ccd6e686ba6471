import Shading.Code.Statement

/-!
# Names in WGSL

How WGSL spells types, textures and functions.  Some functions are operators in WGSL.
-/

namespace Shading.Wgsl

def scalarName : Scalar → String
  | .int => "i32"
  | .uint => "u32"
  | .float => "f32"
  | .bool => "bool"

def primName : Prim → String
  | .vector s .one => scalarName s
  | .vector s .two => "vec2<" ++ scalarName s ++ ">"
  | .vector s .three => "vec3<" ++ scalarName s ++ ">"
  | .vector s .four => "vec4<" ++ scalarName s ++ ">"
  | .matrix .two2 => "mat2x2<f32>"
  | .matrix .three3 => "mat3x3<f32>"
  | .matrix .four4 => "mat4x4<f32>"
  | .matrix .four3 => "mat4x3<f32>"

def baseText : Code.BaseType → String
  | .prim p => primName p
  | .named n => n

/-- An array type names the type of its elements and their number. -/
def arrayText (element : String) : List Nat → String
  | [] => element
  | n :: rest => "array<" ++ arrayText element rest ++ ", " ++ toString n ++ ">"

def typeText (t : Code.TypeName) : String :=
  arrayText (baseText t.base) t.dims

def declText (name : String) (t : Code.TypeName) : String :=
  name ++ ": " ++ typeText t

def dialect : Code.Dialect where
  declare t name := "var " ++ declText name t
  condition c := c

def textureType : SamplerKind → String
  | .plane => "texture_2d<f32>"
  | .planeArray => "texture_2d_array<f32>"
  | .volume => "texture_3d<f32>"
  | .depth => "texture_depth_2d"
  | .unsigned => "texture_2d<u32>"

/-- How a function is written. -/
inductive Spelling where
  | call (name : String)
  | binary (op : BinaryOp)
  | not
  deriving DecidableEq, Repr

def spelling : Intrinsic → Spelling
  | .radians => .call "radians"
  | .degrees => .call "degrees"
  | .sin => .call "sin"
  | .cos => .call "cos"
  | .tan => .call "tan"
  | .asin => .call "asin"
  | .acos => .call "acos"
  | .atan => .call "atan"
  | .sinh => .call "sinh"
  | .cosh => .call "cosh"
  | .tanh => .call "tanh"
  | .asinh => .call "asinh"
  | .acosh => .call "acosh"
  | .atanh => .call "atanh"
  | .pow => .call "pow"
  | .exp => .call "exp"
  | .exp2 => .call "exp2"
  | .log => .call "log"
  | .log2 => .call "log2"
  | .sqrt => .call "sqrt"
  | .inverseSqrt => .call "inverseSqrt"
  | .abs => .call "abs"
  | .sign => .call "sign"
  | .floor => .call "floor"
  | .trunc => .call "trunc"
  | .round => .call "round"
  | .ceil => .call "ceil"
  | .fract => .call "fract"
  | .mod => .binary .rem
  | .min => .call "min"
  | .max => .call "max"
  | .clamp => .call "clamp"
  | .mix => .call "mix"
  | .step => .call "step"
  | .smoothStep => .call "smoothstep"
  | .length => .call "length"
  | .distance => .call "distance"
  | .dot => .call "dot"
  | .cross => .call "cross"
  | .normalize => .call "normalize"
  | .faceForward => .call "faceForward"
  | .reflect => .call "reflect"
  | .refract => .call "refract"
  | .transpose => .call "transpose"
  | .determinant => .call "determinant"
  | .lessThan => .binary .lt
  | .lessThanEqual => .binary .le
  | .greaterThan => .binary .gt
  | .greaterThanEqual => .binary .ge
  | .equal => .binary .eq
  | .notEqual => .binary .ne
  | .any => .call "any"
  | .all => .call "all"
  | .notEach => .not
  | .dFdx => .call "dpdx"
  | .dFdy => .call "dpdy"
  | .fwidth => .call "fwidth"

end Shading.Wgsl
