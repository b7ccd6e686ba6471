import Shading.Code.Literal
import Shading.Code.Lower
import Shading.Glsl.Names

/-!
# Bodies in GLSL

From recorded expressions and statements to those of GLSL.  A construct that the version lacks is an
error; the first one in the order of the text decides.
-/

namespace Shading.Glsl

/-- What expressions need to know about the entry point they belong to. -/
structure Context where
  version : Version
  /-- What the colour of a fragment is written to. -/
  fragColor : Code.Expr
  /-- Locations of the fragment outputs. -/
  location : String → Nat

/-- The context of an expression that belongs to no entry point. -/
def Context.standalone : Context :=
  ⟨.es300, .word "gl_FragColor", fun _ ↦ 0⟩

/-- The place of a fragment output in version 1.00, which has no declared outputs. -/
def fragData (location : Nat) : Code.Expr :=
  .index (.word "gl_FragData") (.word (toString location))

/-! ### Expressions -/

def lowerBuiltin (c : Context) : Builtin → Except Error Code.Expr
  | .vertexId => indexed "gl_VertexID"
  | .instanceId => indexed "gl_InstanceID"
  | .position => return .word "gl_Position"
  | .pointSize => return .word "gl_PointSize"
  | .fragCoord => return .word "gl_FragCoord"
  | .frontFacing => return .word "gl_FrontFacing"
  | .fragColor => return c.fragColor
where
  indexed (name : String) : Except Error Code.Expr :=
    match c.version with
    | .es100 => throw (.unavailable name)
    | .es300 => return .word name

def lowerHandle (c : Context) : Handle → Except Error Code.Expr
  | .builtin b => lowerBuiltin c b
  | .output n =>
    match c.version with
    | .es100 => return fragData (c.location n)
    | .es300 => return .word n
  | h => return .word h.text

def lowerLiteral (v : Version) (l : Literal) : Except Error Code.Expr :=
  match hasPrim v l.prim, l.prim with
  | false, .vector .. => throw (.unavailable "unsigned integer literal")
  | false, .matrix _ => throw (.unavailable (primName l.prim))
  | true, _ => return Code.literal primName l

/-- The name of the function that a call names; texel accesses are written on their own. -/
def calleeName (v : Version) : Callee → Except Error String
  | .construct p => spellPrim v p
  | .intrinsic f => return intrinsicName f
  | .texture kind => textureFunction v kind
  | .texelFetch _ => return "texelFetch"
  | .helper name => return name

/-- An access to a texel of level zero.  A depth is the first channel of its texel. -/
def texelFetch (kind : SamplerKind) (args : List Code.Expr) : Code.Expr :=
  let args := if args.isEmpty then [.blank] else args
  let call := Code.Expr.call "texelFetch" (args ++ [.word "0"])
  if kind = .depth then .member call "r" else call

mutual

def lower (c : Context) : Expr → Except Error Code.Expr
  | .lit v => lowerLiteral c.version v
  | .array t items => do
    let type ← typeName c.version t
    return .call (typeText type) (← lowerAll c items)
  | .var h => lowerHandle c h
  | .unary op a => return .unary op (← lower c a)
  | .binary op a b => return .binary op (← lower c a) (← lower c b)
  | .call (.texelFetch kind) args => do
    if c.version = .es100 then throw .noTexelFetch
    return texelFetch kind (← lowerAll c args)
  | .call callee args => do
    let name ← calleeName c.version callee
    return .call name (← lowerAll c args)
  | .swizzle a channels => return .member (← lower c a) channels.text
  | .field a name => return .member (← lower c a) name
  | .index a i => return .index (← lower c a) (← lower c i)

def lowerAll (c : Context) : List Expr → Except Error (List Code.Expr)
  | [] => return []
  | e :: es => return (← lower c e) :: (← lowerAll c es)

end

/-! ### Statements -/

/-- Which function statements belong to. -/
inductive Place where
  | entry (stage : Stage)
  | helper
  deriving DecidableEq, Repr

/-- The statements that leave a function.  An entry point assigns a value to the output of its stage
first. -/
def leave (c : Context) (place : Place) : Option Code.Expr → List Code.Statement
  | none => [.leave none]
  | some value =>
    match place with
    | .entry .vertex => [.assign (.word "gl_Position") none value, .leave none]
    | .entry .fragment => [.assign c.fragColor none value, .leave none]
    | .helper => [.leave (some value)]

def target (c : Context) (place : Place) : Code.Target where
  expr := lower c
  type := typeName c.version
  leave := leave c place
  raw glsl _ := glsl

end Shading.Glsl
