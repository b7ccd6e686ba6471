import Shading.Code.Literal
import Shading.Code.Lower
import Shading.Wgsl.Names

/-!
# Bodies in WGSL

From recorded expressions and statements to those of WGSL.  Stage inputs and outputs are not global
in WGSL: they are parameters and results of the entry function, so they are reached through its
structs and cannot be reached from a helper.
-/

namespace Shading.Wgsl

/-- How stage inputs and outputs flow in and out of an entry function. -/
inductive Flow where
  /-- Whether results go through an output struct, and whether depth is remapped before leaving. -/
  | vertex (output remapDepth : Bool)
  /-- Whether inputs come in a struct, whether results go through one, and which field of it takes
  the colour. -/
  | fragment (input output : Bool) (color : String)
  deriving DecidableEq, Repr

def Flow.stage : Flow → Stage
  | vertex .. => .vertex
  | fragment .. => .fragment

/-- Where code stands. -/
inductive Place where
  | standalone
  | entry (flow : Flow)
  | helper (stage : Stage)
  deriving DecidableEq, Repr

def Place.stage? : Place → Option Stage
  | standalone => none
  | entry flow => some flow.stage
  | helper stage => some stage

def ofOutput (field : String) : Code.Expr :=
  .member (.word "output") field

def ofInput (field : String) : Code.Expr :=
  .member (.word "input") field

def ofFragOut (field : String) : Code.Expr :=
  .member (.word "frag_out") field

/-! ### Handles -/

/-- A fragment input, which may come in a struct. -/
def fragmentInput (place : Place) (name : String) : Code.Expr :=
  match place with
  | .entry (.fragment true _ _) => ofInput name
  | _ => .word name

def builtinExpr (place : Place) : Builtin → Code.Expr
  | .vertexId => .call "i32" [.word "vertex_index"]
  | .instanceId => .call "i32" [.word "instance_index"]
  | .position =>
    match place with
    | .entry _ => ofOutput "position"
    | _ => .word "position"
  | .pointSize => .word "point_size"
  | .fragCoord => fragmentInput place "frag_coord"
  | .frontFacing => fragmentInput place "front_facing"
  | .fragColor =>
    match place with
    | .entry (.fragment _ _ color) => ofFragOut color
    | _ => .word "color"

/-- Reject stage inputs and outputs in helpers. -/
def checkStageValue (place : Place) (what : String) : Except Error Unit :=
  match place with
  | .helper _ => throw (.stageValueInHelper what)
  | _ => return ()

def varyingExpr (place : Place) (name : String) : Code.Expr :=
  match place with
  | .entry (.vertex ..) => ofOutput name
  | .entry (.fragment ..) => ofInput name
  | _ => .word name

def outputExpr (place : Place) (name : String) : Code.Expr :=
  match place with
  | .entry _ => ofFragOut name
  | _ => .word name

def lowerHandle (place : Place) : Handle → Except Error Code.Expr
  | .builtin b => do
    checkStageValue place b.qualified
    return builtinExpr place b
  | .vertexAttribute n => do
    checkStageValue place n
    return .word n
  | .varying n => do
    checkStageValue place n
    return varyingExpr place n
  | .output n => do
    checkStageValue place n
    return outputExpr place n
  | h => return .word h.text

/-! ### Expressions -/

/-- WGSL has no exclusive or of booleans. -/
def lowerOp : BinaryOp → BinaryOp
  | .xor => .ne
  | op => op

/-- Whether a swizzle is the vertical window coordinate, which grows downwards in WGSL. -/
def isFragCoordY (object : Expr) (channels : Swizzle) : Bool :=
  match object with
  | .var (.builtin .fragCoord) => channels.channels.toList = [.y]
  | _ => false

/-- A filtered texture access.  Derivatives exist in fragment shaders only, so a vertex shader names
the level; GLSL picks the nearest layer of an array. -/
def sample (place : Place) (kind : SamplerKind) (texture coords : Code.Expr) : Code.Expr :=
  let position := match kind with
    | .planeArray => [.member coords "xy", .call "i32" [.call "round" [.member coords "z"]]]
    | _ => [coords]
  let args := [texture, .suffixed texture "_sampler"] ++ position
  if place.stage? = some .vertex then .call "textureSampleLevel" (args ++ [.word "0.0"])
  else .call "textureSample" args

/-- A call, given the outcomes of its arguments. -/
def lowerCall (place : Place) (callee : Callee) (args : List (Except Error Code.Expr)) :
    Except Error Code.Expr :=
  match callee with
  | .construct p => return .call (primName p) (← args.mapM id)
  | .intrinsic f =>
    match spelling f, args with
    | .call name, _ => return .call name (← args.mapM id)
    | .binary op, [a, b] => return .binary op (← a) (← b)
    | .binary op, _ => throw (.operandCount op.symbol args.length)
    | .not, a :: _ => return .unary .not (← a)
    | .not, [] => return .unary .not .blank
  | .texture kind =>
    match args with
    | [texture, coords] => return sample place kind (← texture) (← coords)
    | _ => throw (.sampleArguments args.length)
  | .texelFetch _ => do
    let args ← args.mapM id
    let args := if args.isEmpty then [.blank] else args
    return .call "textureLoad" (args ++ [.word "0"])
  | .helper name => return .call name (← args.mapM id)

mutual

def lower (place : Place) : Expr → Except Error Code.Expr
  | .lit v => return Code.literal primName v
  | .array t items => return .call (typeText (.ofTy t)) (← (lowerEach place items).mapM id)
  | .var h => lowerHandle place h
  | .unary op a => return .unary op (← lower place a)
  | .binary op a b => return .binary (lowerOp op) (← lower place a) (← lower place b)
  | .call callee args => lowerCall place callee (lowerEach place args)
  | .swizzle a channels => do
    let access := Code.Expr.member (← lower place a) channels.text
    return if isFragCoordY a channels then .unary .neg access else access
  | .field a name => return .member (← lower place a) name
  | .index a i => return .index (← lower place a) (← lower place i)

/-- The outcomes of several expressions, each on its own. -/
def lowerEach (place : Place) : List Expr → List (Except Error Code.Expr)
  | [] => []
  | e :: es => lower place e :: lowerEach place es

end

/-! ### Statements -/

/-- Map the depth of the position from `[-1, 1]` to `[0, 1]`. -/
def remapDepth : Code.Statement :=
  let depth := Code.Expr.member (ofOutput "position") "z"
  .assign depth none (.binary .mul (.binary .add depth (.word "1.0")) (.word "0.5"))

/-- The statements that return the output struct, if there is one. -/
def tail : Flow → List Code.Statement
  | .vertex true remap =>
    (if remap then [remapDepth] else []) ++ [.leave (some (.word "output"))]
  | .fragment _ true _ => [.leave (some (.word "frag_out"))]
  | _ => []

/-- Where a returned value goes, if there is an output struct. -/
def resultTarget? : Flow → Option Code.Expr
  | .vertex true _ => some (ofOutput "position")
  | .fragment _ true color => some (ofFragOut color)
  | _ => none

def leave (place : Place) (value : Option Code.Expr) : List Code.Statement :=
  match place with
  | .entry flow =>
    match value, resultTarget? flow with
    | none, none => [.leave none]
    | none, some _ => tail flow
    | some v, none => [.leave (some v)]
    | some v, some target => .assign target none v :: tail flow
  | _ => [.leave value]

def target (place : Place) : Code.Target where
  expr := lower place
  type t := return .ofTy t
  leave := leave place
  raw _ wgsl := wgsl

end Shading.Wgsl
