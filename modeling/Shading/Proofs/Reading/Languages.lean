import Shading.Proofs.Reading.Lexer
import Shading.Wgsl.Lower

/-!
# Expressions in the target languages

What an expression is meant to read as in GLSL and in WGSL, said on recorded expressions and with
names that are listed here: a negative literal is a negation, a literal vector a call of its
constructor, a texture access the call it is expanded to.  In WGSL some functions are operators and
the vertical window coordinate is negated.
-/

namespace Shading.Reading

/-! ### Types -/

def glslScalar : Scalar → String
  | .int => "int"
  | .uint => "uint"
  | .float => "float"
  | .bool => "bool"

/-- What tells the vectors of GLSL apart; those of floats have nothing. -/
def glslLetter : Scalar → String
  | .int => "i"
  | .uint => "u"
  | .float => ""
  | .bool => "b"

/-- The rows of a square matrix go without saying in GLSL. -/
def glslPrim : Prim → String
  | .vector s .one => glslScalar s
  | .vector s d => glslLetter s ++ "vec" ++ toString d.size
  | .matrix m =>
    "mat" ++ toString m.columns ++ if m.rows = m.columns then "" else "x" ++ toString m.rows

def glslType (t : Ty) : String :=
  t.dims.foldl (fun name n ↦ name ++ "[" ++ toString n ++ "]") (glslPrim t.prim)

def wgslScalar : Scalar → String
  | .int => "i32"
  | .uint => "u32"
  | .float => "f32"
  | .bool => "bool"

def wgslPrim : Prim → String
  | .vector s .one => wgslScalar s
  | .vector s d => "vec" ++ toString d.size ++ "<" ++ wgslScalar s ++ ">"
  | .matrix m =>
    "mat" ++ toString m.columns ++ "x" ++ toString m.rows ++ "<" ++ wgslScalar .float ++ ">"

def wgslType (t : Ty) : String :=
  t.dims.foldr (fun n element ↦ "array<" ++ element ++ ", " ++ toString n ++ ">") (wgslPrim t.prim)

/-! ### Functions -/

/-- The functions that both languages call the same. -/
def sharedFunction : Intrinsic → String
  | .radians => "radians"
  | .degrees => "degrees"
  | .sin => "sin"
  | .cos => "cos"
  | .tan => "tan"
  | .asin => "asin"
  | .acos => "acos"
  | .atan => "atan"
  | .sinh => "sinh"
  | .cosh => "cosh"
  | .tanh => "tanh"
  | .asinh => "asinh"
  | .acosh => "acosh"
  | .atanh => "atanh"
  | .pow => "pow"
  | .exp => "exp"
  | .exp2 => "exp2"
  | .log => "log"
  | .log2 => "log2"
  | .sqrt => "sqrt"
  | .abs => "abs"
  | .sign => "sign"
  | .floor => "floor"
  | .trunc => "trunc"
  | .round => "round"
  | .ceil => "ceil"
  | .fract => "fract"
  | .min => "min"
  | .max => "max"
  | .clamp => "clamp"
  | .mix => "mix"
  | .step => "step"
  | .smoothStep => "smoothstep"
  | .length => "length"
  | .distance => "distance"
  | .dot => "dot"
  | .cross => "cross"
  | .normalize => "normalize"
  | .reflect => "reflect"
  | .refract => "refract"
  | .transpose => "transpose"
  | .determinant => "determinant"
  | .any => "any"
  | .all => "all"
  | .fwidth => "fwidth"
  | _ => ""

def glslFunction : Intrinsic → String
  | .inverseSqrt => "inversesqrt"
  | .mod => "mod"
  | .faceForward => "faceforward"
  | .lessThan => "lessThan"
  | .lessThanEqual => "lessThanEqual"
  | .greaterThan => "greaterThan"
  | .greaterThanEqual => "greaterThanEqual"
  | .equal => "equal"
  | .notEqual => "notEqual"
  | .notEach => "not"
  | .dFdx => "dFdx"
  | .dFdy => "dFdy"
  | f => sharedFunction f

def wgslFunction : Intrinsic → String
  | .inverseSqrt => "inverseSqrt"
  | .faceForward => "faceForward"
  | .dFdx => "dpdx"
  | .dFdy => "dpdy"
  | f => sharedFunction f

/-! ### Values and channels -/

/-- The name of a value.  Built-in values have other names in every language. -/
def valueName : Handle → String
  | .builtin _ => ""
  | .constant i => "glob_" ++ toString i
  | .argument i => "arg_" ++ toString i
  | .localVar d i => "var_" ++ toString d ++ "_" ++ toString i
  | .uniform n => n
  | .uniformStruct n => n
  | .vertexAttribute n => n
  | .varying n => n
  | .output n => n
  | .sampler n => n

def channelName : Channel → Char
  | .x => 'x'
  | .y => 'y'
  | .z => 'z'
  | .w => 'w'

def swizzleName (s : Swizzle) : String :=
  String.ofList (s.channels.toList.map channelName)

/-! ### Literals -/

/-- A negative number is the negation of its magnitude. -/
def signedTree (negative : Bool) (magnitude : String) : Tree :=
  if negative then .unary .neg (.word magnitude) else .word magnitude

def floatTree (x : Binary32) : Tree :=
  signedTree x.isNegative x.text

/-- The components of a vector that are shown: one for all if they are equal. -/
def shown {α : Type} (same : α → α → Bool) (xs : List α) : List α :=
  if xs.tail.all fun x ↦ xs.head?.any (same x) then xs.take 1 else xs

def componentTrees : Literal → List Tree
  | .int _ v => (shown (· == ·) v.toList).map fun x ↦
      signedTree (x.toInt < 0) (toString x.toInt.natAbs)
  | .uint _ v => (shown (· == ·) v.toList).map fun x ↦ .word (toString x.toNat ++ "u")
  | .float _ v => (shown Binary32.sameValue v.toList).map floatTree
  | .bool _ v => (shown (· == ·) v.toList).map fun x ↦ .word (if x then "true" else "false")
  | .matrix _ columns => (columns.toList.flatMap Vector.toList).map floatTree

/-- A literal: its component if it is a scalar, and a call of its constructor otherwise. -/
def literalTree (spell : Prim → String) (v : Literal) : Tree :=
  match v.prim.isScalar, componentTrees v with
  | true, [c] => c
  | _, cs => .call (spell v.prim) cs

/-! ### Languages -/

/-- What a language makes of the parts of an expression. -/
structure Language where
  primName : Prim → String
  typeName : Ty → String
  handle : Handle → Tree
  operator : BinaryOp → BinaryOp
  call : Callee → List Tree → Tree
  /-- Whether a swizzle of an expression is negated. -/
  negates : Expr → Swizzle → Bool

mutual

def reading (l : Language) : Expr → Tree
  | .lit v => literalTree l.primName v
  | .array t items => .call (l.typeName t) (readings l items)
  | .var h => l.handle h
  | .unary op a => .unary op (reading l a)
  | .binary op a b => .binary (l.operator op) (reading l a) (reading l b)
  | .call callee args => l.call callee (readings l args)
  | .swizzle a channels =>
    let access := .member (reading l a) (swizzleName channels)
    if l.negates a channels then .unary .neg access else access
  | .field a name => .member (reading l a) name
  | .index a i => .index (reading l a) (reading l i)

def readings (l : Language) : List Expr → List Tree
  | [] => []
  | e :: es => reading l e :: readings l es

end

theorem length_readings (l : Language) (es : List Expr) :
    (readings l es).length = es.length := by
  induction es with
  | nil => rfl
  | cons e es ih => simp only [readings, List.length_cons, ih]

/-! ### GLSL -/

/-- Built-in values of GLSL.  The colour of a fragment is a variable of its own. -/
def glslBuiltin (color : String) : Builtin → String
  | .vertexId => "gl_VertexID"
  | .instanceId => "gl_InstanceID"
  | .position => "gl_Position"
  | .pointSize => "gl_PointSize"
  | .fragCoord => "gl_FragCoord"
  | .frontFacing => "gl_FrontFacing"
  | .fragColor => color

def glslHandle (color : String) : Handle → Tree
  | .builtin b => .word (glslBuiltin color b)
  | h => .word (valueName h)

def glslCall : Callee → List Tree → Tree
  | .construct p, args => .call (glslPrim p) args
  | .intrinsic f, args => .call (glslFunction f) args
  | .texture _, args => .call "texture" args
  | .texelFetch .depth, args => .member (.call "texelFetch" (args ++ [.word "0"])) "r"
  | .texelFetch _, args => .call "texelFetch" (args ++ [.word "0"])
  | .helper name, args => .call name args

def glsl (color : String) : Language where
  primName := glslPrim
  typeName := glslType
  handle := glslHandle color
  operator op := op
  call := glslCall
  negates _ _ := false

/-! ### WGSL -/

def fieldOf (struct : Option String) (name : String) : Tree :=
  match struct with
  | some object => .member (.word object) name
  | none => .word name

/-- The struct that brings built-in inputs to a fragment shader. -/
def inputStruct : Wgsl.Place → Option String
  | .entry (.fragment true _ _) => some "input"
  | _ => none

/-- The struct that varyings are fields of: they leave a vertex shader and enter a fragment
shader. -/
def varyingStruct : Wgsl.Place → Option String
  | .entry (.vertex ..) => some "output"
  | .entry (.fragment ..) => some "input"
  | _ => none

/-- In an entry function a struct takes the results. -/
def resultStruct (struct : String) : Wgsl.Place → Option String
  | .entry _ => some struct
  | _ => none

def wgslColor : Wgsl.Place → Tree
  | .entry (.fragment _ _ color) => .member (.word "frag_out") color
  | _ => .word "color"

/-- Counters are unsigned in WGSL, and are converted. -/
def wgslBuiltin (place : Wgsl.Place) : Builtin → Tree
  | .vertexId => .call "i32" [.word "vertex_index"]
  | .instanceId => .call "i32" [.word "instance_index"]
  | .position => fieldOf (resultStruct "output" place) "position"
  | .pointSize => .word "point_size"
  | .fragCoord => fieldOf (inputStruct place) "frag_coord"
  | .frontFacing => fieldOf (inputStruct place) "front_facing"
  | .fragColor => wgslColor place

def wgslHandle (place : Wgsl.Place) : Handle → Tree
  | .builtin b => wgslBuiltin place b
  | .varying n => fieldOf (varyingStruct place) n
  | .output n => fieldOf (resultStruct "frag_out" place) n
  | h => .word (valueName h)

def wgslIntrinsic : Intrinsic → List Tree → Tree
  | .mod, [a, b] => .binary .rem a b
  | .lessThan, [a, b] => .binary .lt a b
  | .lessThanEqual, [a, b] => .binary .le a b
  | .greaterThan, [a, b] => .binary .gt a b
  | .greaterThanEqual, [a, b] => .binary .ge a b
  | .equal, [a, b] => .binary .eq a b
  | .notEqual, [a, b] => .binary .ne a b
  | .notEach, [a] => .unary .not a
  | f, args => .call (wgslFunction f) args

/-- The coordinates of a texture access; an array of textures has its layer apart. -/
def wgslCoords (kind : SamplerKind) (coords : Tree) : List Tree :=
  if kind = .planeArray then
    [.member coords "xy", .call "i32" [.call "round" [.member coords "z"]]]
  else [coords]

/-- Only fragment shaders have derivatives to find the level of a texture with. -/
def namesLevel : Wgsl.Place → Bool
  | .entry (.vertex ..) => true
  | .helper .vertex => true
  | _ => false

/-- A texture access names the texture and its sampler object, and in a vertex shader the level. -/
def wgslSample (place : Wgsl.Place) (kind : SamplerKind) : List Tree → Tree
  | [.word texture, coords] =>
    let args := .word texture :: .word (texture ++ "_sampler") :: wgslCoords kind coords
    if namesLevel place then .call "textureSampleLevel" (args ++ [.word "0.0"])
    else .call "textureSample" args
  | args => .call "textureSample" args

def wgslCall (place : Wgsl.Place) : Callee → List Tree → Tree
  | .construct p, args => .call (wgslPrim p) args
  | .intrinsic f, args => wgslIntrinsic f args
  | .texture kind, args => wgslSample place kind args
  | .texelFetch _, args => .call "textureLoad" (args ++ [.word "0"])
  | .helper name, args => .call name args

/-- The window coordinate grows downwards in WGSL, and `y` of it is the vertical one. -/
def isVertical : Expr → Swizzle → Bool
  | .var (.builtin .fragCoord), channels => swizzleName channels = "y"
  | _, _ => false

def wgsl (place : Wgsl.Place) : Language where
  primName := wgslPrim
  typeName := wgslType
  handle := wgslHandle place
  operator op := if op = .xor then .ne else op
  call := wgslCall place
  negates := isVertical

/-! ### Proper calls -/

/-- The functions that are operators on two operands in WGSL. -/
def isInfix : Intrinsic → Bool
  | .mod => true
  | .lessThan => true
  | .lessThanEqual => true
  | .greaterThan => true
  | .greaterThanEqual => true
  | .equal => true
  | .notEqual => true
  | _ => false

/-- A function that is an operator in some language has the operands of that operator, and a texture
access names a sampler. -/
def ProperCall : Callee → List Expr → Prop
  | .intrinsic f, args =>
    (isInfix f = true → args.length = 2) ∧ (f = .notEach → args.length = 1)
  | .texture _, args => ∃ name coords, args = [.var (.sampler name), coords]
  | .texelFetch _, args => args ≠ []
  | _, _ => True

mutual

def Proper : Expr → Prop
  | .lit _ => True
  | .array _ items => ProperAll items
  | .var _ => True
  | .unary _ a => Proper a
  | .binary _ a b => Proper a ∧ Proper b
  | .call callee args => ProperCall callee args ∧ ProperAll args
  | .swizzle a _ => Proper a
  | .field a _ => Proper a
  | .index a i => Proper a ∧ Proper i

def ProperAll : List Expr → Prop
  | [] => True
  | e :: es => Proper e ∧ ProperAll es

end

/-! ### Given names -/

/-- A value that comes with a name of its own has one that can be told from the rest of a text. -/
def NamedHandle : Handle → Prop
  | .builtin _ => True
  | .constant _ => True
  | .argument _ => True
  | .localVar .. => True
  | h => isName (valueName h) = true

def NamedCallee : Callee → Prop
  | .helper name => isName name = true
  | _ => True

mutual

/-- Whatever has a name in an expression has one that can be told from the rest of a text. -/
def Named : Expr → Prop
  | .lit _ => True
  | .array _ items => NamedAll items
  | .var h => NamedHandle h
  | .unary _ a => Named a
  | .binary _ a b => Named a ∧ Named b
  | .call callee args => NamedCallee callee ∧ NamedAll args
  | .swizzle a _ => Named a
  | .field a name => Named a ∧ isName name = true
  | .index a i => Named a ∧ Named i

def NamedAll : List Expr → Prop
  | [] => True
  | e :: es => Named e ∧ NamedAll es

end

/-- The field that takes the colour of a fragment has a name. -/
def NamedPlace : Wgsl.Place → Prop
  | .entry (.fragment _ _ color) => isName color = true
  | _ => True

end Shading.Reading
