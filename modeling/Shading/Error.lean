import Shading.Description
import Shading.Sampler
import Shading.Stage

/-!
# Errors

Everything that can go wrong while a program is declared or an entry point is emitted.  Each error
belongs to one of five categories, and its message starts with the words of its category.
-/

namespace Shading

/-- Kinds of things a program declares. -/
inductive DeclKind where
  | uniform
  | structUniform
  | sampler
  | vertexAttribute
  | varying
  | output
  | function
  | entryPoint
  | struct
  deriving DecidableEq, Repr

def DeclKind.text : DeclKind → String
  | uniform => "uniform"
  | structUniform => "struct uniform"
  | sampler => "sampler"
  | vertexAttribute => "attribute"
  | varying => "varying"
  | output => "output"
  | function => "function"
  | entryPoint => "entry point"
  | struct => "struct"

/-- A space in which indices are handed out. -/
inductive IndexSpace where
  | location (kind : DeclKind)
  | binding (group : Nat)
  deriving DecidableEq, Repr

def IndexSpace.text : IndexSpace → String
  | location k => k.text ++ " location"
  | binding g => "group " ++ toString g ++ " binding"

inductive Error where
  /-- A declaration of another program, or of none, is used. -/
  | undeclared (kind : DeclKind) (name : String)
  | undeclaredConstant (index : Nat)
  | noBinding (name : String)
  | noField (struct field : String)
  | duplicate (kind : DeclKind) (name : String)
  | unresolvedEntry (name : String)
  | indexCollision (space : IndexSpace) (index : Nat) (first second : String)
  /-- A constructor is called without arguments. -/
  | noArguments (target : Prim)
  | arrayArgument (target : Prim)
  | argumentScalar (target argument : Prim)
  | argumentCount (target : Prim) (components : Nat)
  | fieldType (struct : String) (field : Field) (requested : Ty)
  | notStruct (struct field : String)
  | notStructArray (struct field : String)
  | tooManyConstants (count : Nat)
  | constantCycle (index : Nat)
  /-- Two entry points of one stage are paired. -/
  | sameStage (entry peer : String) (stage : Stage)
  | foreignDiscard (stage : Stage)
  | foreignBuiltin (value : Builtin) (stage : Stage)
  | foreignResource (kind : DeclKind) (name : String) (stage : Stage)
  | recursiveHelper (name : String)
  | noSamplerObject (sampler : String) (texture : Nat)
  /-- The oldest GLSL version lacks something. -/
  | unavailable (what : String)
  | noTexelFetch
  | operandCount (operator : String) (given : Nat)
  | sampleArguments (given : Nat)
  | stageValueInHelper (what : String)
  /-- The author of a body gives up. -/
  | rejected (reason : String)

namespace Error

inductive Category where
  | missingValue
  | duplicateDefinition
  | unresolvedEntryPoint
  | invalidArgument
  | indexCollision
  deriving DecidableEq, Repr

def category : Error → Category
  | undeclared .. => .missingValue
  | undeclaredConstant .. => .missingValue
  | noBinding .. => .missingValue
  | noField .. => .missingValue
  | duplicate .. => .duplicateDefinition
  | unresolvedEntry .. => .unresolvedEntryPoint
  | indexCollision .. => .indexCollision
  | _ => .invalidArgument

/-- What the message says after the words of its category. -/
def detail : Error → String
  | undeclared kind name => kind.text ++ " " ++ name
  | undeclaredConstant i => "glob_" ++ toString i
  | noBinding name => "binding of " ++ name
  | noField struct field => struct ++ "." ++ field
  | duplicate _ name => name
  | unresolvedEntry name => name
  | indexCollision _ _ first second => first ++ " and " ++ second
  | noArguments target => target.describe ++ " constructor requires at least one argument"
  | arrayArgument target => target.describe ++ " constructor cannot take an array argument"
  | argumentScalar target argument =>
    target.describe ++ " constructor cannot take a " ++ argument.describe ++ " argument"
  | argumentCount target components =>
    target.describe ++ " constructor expects " ++ toString target.components ++
      " components, got " ++ toString components
  | fieldType struct field requested =>
    "field " ++ struct ++ "." ++ field.name ++ " has type " ++ field.describe ++ ", not " ++
      requested.describe
  | notStruct struct field => "field " ++ struct ++ "." ++ field ++ " is not a struct"
  | notStructArray struct field =>
    "field " ++ struct ++ "." ++ field ++ " is not an array of structs"
  | tooManyConstants count => "too many constants (" ++ toString count ++ ")"
  | constantCycle i => "constant glob_" ++ toString i ++ " refers to itself"
  | sameStage entry peer stage =>
    "entry point " ++ entry ++ " cannot be paired with " ++ peer ++ ": both are " ++ stage.text ++
      " entry points"
  | foreignDiscard stage => "discard in a " ++ stage.text ++ " entry point"
  | foreignBuiltin value stage => value.text ++ " used in a " ++ stage.text ++ " entry point"
  | foreignResource kind name stage =>
    kind.text ++ " " ++ name ++ " used in a " ++ stage.text ++ " entry point"
  | recursiveHelper name => "function " ++ name ++ " calls itself"
  | noSamplerObject sampler texture =>
    "sampler " ++ sampler ++ " at binding " ++ toString texture ++
      " leaves no room for its sampler object"
  | unavailable what => what ++ " is not available in GLSL ES 1.00"
  | noTexelFetch => "texel fetches are not available in GLSL ES 1.00"
  | operandCount operator given => operator ++ " expects 2 operands, got " ++ toString given
  | sampleArguments given => "texture sampling expects 2 arguments, got " ++ toString given
  | stageValueInHelper what => what ++ " cannot be used in a helper function in WGSL"
  | rejected reason => reason

/-- The text shown to the author. -/
def message : Error → String
  | indexCollision space index first second =>
    space.text ++ " index " ++ toString index ++ " is claimed by both " ++ first ++ " and " ++
      second
  | duplicate kind name => "duplicate " ++ kind.text ++ " definition: " ++ name
  | e =>
    match e.category with
    | .missingValue => "missing value: " ++ e.detail
    | .unresolvedEntryPoint => "unresolved entry point: " ++ e.detail
    | _ => "invalid argument: " ++ e.detail

end Error

end Shading
