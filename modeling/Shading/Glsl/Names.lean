import Shading.Code.Statement
import Shading.Error

/-!
# Names in GLSL

How GLSL ES spells types, functions and samplers.  Version 1.00 lacks unsigned integers, matrices
that are not square and most samplers.
-/

namespace Shading.Glsl

/-- Versions of GLSL ES. -/
inductive Version where
  | es100
  | es300
  deriving DecidableEq, Repr

/-- Default precision of floats. -/
inductive Precision where
  | low
  | medium
  | high
  deriving DecidableEq, Repr

def Precision.text : Precision → String
  | low => "lowp"
  | medium => "mediump"
  | high => "highp"

def primName : Prim → String
  | .vector .int .one => "int"
  | .vector .int .two => "ivec2"
  | .vector .int .three => "ivec3"
  | .vector .int .four => "ivec4"
  | .vector .uint .one => "uint"
  | .vector .uint .two => "uvec2"
  | .vector .uint .three => "uvec3"
  | .vector .uint .four => "uvec4"
  | .vector .float .one => "float"
  | .vector .float .two => "vec2"
  | .vector .float .three => "vec3"
  | .vector .float .four => "vec4"
  | .vector .bool .one => "bool"
  | .vector .bool .two => "bvec2"
  | .vector .bool .three => "bvec3"
  | .vector .bool .four => "bvec4"
  | .matrix .two2 => "mat2"
  | .matrix .three3 => "mat3"
  | .matrix .four4 => "mat4"
  | .matrix .four3 => "mat4x3"

/-- Whether a version has a primitive type. -/
def hasPrim : Version → Prim → Bool
  | .es300, _ => true
  | .es100, .vector .uint _ => false
  | .es100, .matrix .four3 => false
  | .es100, _ => true

/-- The name of a primitive type that the version has. -/
def spellPrim (v : Version) (p : Prim) : Except Error String :=
  if hasPrim v p then return primName p else throw (.unavailable (primName p))

/-- Array dimensions after a name. -/
def dimsText (dims : List Nat) : String :=
  String.join (dims.map fun n ↦ "[" ++ toString n ++ "]")

def baseText : Code.BaseType → String
  | .prim p => primName p
  | .named n => n

/-- A type on its own, as in constructors. -/
def typeText (t : Code.TypeName) : String :=
  baseText t.base ++ dimsText t.dims

/-- A declaration of a name, whose array dimensions come last. -/
def declText (t : Code.TypeName) (name : String) : String :=
  baseText t.base ++ " " ++ name ++ dimsText t.dims

def dialect : Code.Dialect where
  declare := declText
  condition c := "(" ++ c ++ ")"

/-- A type that the version has. -/
def typeName (v : Version) (t : Ty) : Except Error Code.TypeName := do
  let _ ← spellPrim v t.prim
  return .ofTy t

def samplerUnavailable (kind : SamplerKind) : Error :=
  .unavailable (kind.label ++ " sampler")

/-- The type of a sampler.  In version 3.00 samplers other than the plain one have no default
precision. -/
def samplerType : Version → SamplerKind → Except Error String
  | .es100, .plane => return "sampler2D"
  | .es100, .volume => return "sampler3D"
  | .es100, kind => throw (samplerUnavailable kind)
  | .es300, .plane => return "sampler2D"
  | .es300, .planeArray => return "highp sampler2DArray"
  | .es300, .volume => return "highp sampler3D"
  | .es300, .depth => return "highp sampler2D"
  | .es300, .unsigned => return "highp usampler2D"

/-- The function that samples a texture. -/
def textureFunction : Version → SamplerKind → Except Error String
  | .es300, _ => return "texture"
  | .es100, .plane => return "texture2D"
  | .es100, .volume => return "texture3D"
  | .es100, kind => throw (samplerUnavailable kind)

def intrinsicName : Intrinsic → String
  | .radians => "radians"
  | .degrees => "degrees"
  | .sin => "sin"
  | .cos => "cos"
  | .tan => "tan"
  | .asin => "asin"
  | .acos => "acos"
  | .atan => "atan"
  | .sinh => "sinh"
  | .cosh => "cosh"
  | .tanh => "tanh"
  | .asinh => "asinh"
  | .acosh => "acosh"
  | .atanh => "atanh"
  | .pow => "pow"
  | .exp => "exp"
  | .exp2 => "exp2"
  | .log => "log"
  | .log2 => "log2"
  | .sqrt => "sqrt"
  | .inverseSqrt => "inversesqrt"
  | .abs => "abs"
  | .sign => "sign"
  | .floor => "floor"
  | .trunc => "trunc"
  | .round => "round"
  | .ceil => "ceil"
  | .fract => "fract"
  | .mod => "mod"
  | .min => "min"
  | .max => "max"
  | .clamp => "clamp"
  | .mix => "mix"
  | .step => "step"
  | .smoothStep => "smoothstep"
  | .length => "length"
  | .distance => "distance"
  | .dot => "dot"
  | .cross => "cross"
  | .normalize => "normalize"
  | .faceForward => "faceforward"
  | .reflect => "reflect"
  | .refract => "refract"
  | .transpose => "transpose"
  | .determinant => "determinant"
  | .lessThan => "lessThan"
  | .lessThanEqual => "lessThanEqual"
  | .greaterThan => "greaterThan"
  | .greaterThanEqual => "greaterThanEqual"
  | .equal => "equal"
  | .notEqual => "notEqual"
  | .any => "any"
  | .all => "all"
  | .notEach => "not"
  | .dFdx => "dFdx"
  | .dFdy => "dFdy"
  | .fwidth => "fwidth"

end Shading.Glsl
