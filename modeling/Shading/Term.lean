import Shading.Error
import Shading.Expr

/-!
# Typed expressions

A term is an expression with its shading type.  The functions here are what authors build
expressions with; they give every result its type.  They do not reject ill-typed operands, except
for `construct`, whose arguments are only known when it is called.
-/

namespace Shading

structure Term where
  type : Ty
  expr : Expr

namespace Term

/-! ### Values -/

def ofHandle (type : Ty) (handle : Handle) : Term :=
  ⟨type, .var handle⟩

def lit (value : Literal) : Term :=
  ⟨.ofPrim value.prim, .lit value⟩

/-- An array literal whose elements have the type `element`. -/
def array (element : Ty) (items : List Term) : Term :=
  let type := element.array items.length
  ⟨type, .array type (items.map expr)⟩

def builtinType : Builtin → Ty
  | .vertexId => .int
  | .instanceId => .int
  | .position => .ofPrim (.vector .float .four)
  | .pointSize => .float
  | .fragCoord => .ofPrim (.vector .float .four)
  | .frontFacing => .bool
  | .fragColor => .ofPrim (.vector .float .four)

def builtin (value : Builtin) : Term :=
  ofHandle (builtinType value) (.builtin value)

/-! ### Operators -/

def neg (a : Term) : Term :=
  ⟨a.type, .unary .neg a.expr⟩

def not (a : Term) : Term :=
  ⟨a.type, .unary .not a.expr⟩

/-- Type of a product, for the operand types that multiplication accepts: equal scalars or vectors,
a vector and its scalar, and the products of linear algebra. -/
def productType? (a b : Ty) : Option Ty :=
  match a, b with
  | ⟨.vector s d, []⟩, ⟨.vector s' d', []⟩ =>
    if s = .bool then none
    else if s = s' ∧ (d' = d ∨ d' = .one) then some a else none
  | ⟨.matrix m, []⟩, ⟨.matrix m', []⟩ =>
    if m'.columns = m'.rows ∧ m'.rows = m.columns then some a else none
  | ⟨.matrix m, []⟩, ⟨.vector .float d, []⟩ =>
    if d.size = m.columns then (Dim.ofSize? m.rows).map fun d ↦ .ofPrim (.vector .float d) else none
  | ⟨.vector .float d, []⟩, ⟨.matrix m, []⟩ =>
    if m.columns = m.rows ∧ d.size = m.rows then some a else none
  | _, _ => none

def mul (a b : Term) : Term :=
  ⟨(productType? a.type b.type).getD a.type, Expr.mul a.expr b.expr⟩

/-- The remainder: a function call for floats and an operator for integers. -/
def rem (a b : Term) : Term :=
  match a.type.prim.kind with
  | .float => ⟨a.type, Expr.floatRem a.expr b.expr⟩
  | _ => ⟨a.type, .binary .rem a.expr b.expr⟩

/-- An operator whose result has the type of its left operand. -/
def arithmetic (op : BinaryOp) (a b : Term) : Term :=
  ⟨a.type, .binary op a.expr b.expr⟩

/-- A comparison or a logical operator. -/
def relation (op : BinaryOp) (a b : Term) : Term :=
  ⟨.bool, .binary op a.expr b.expr⟩

/-- An element of an array. -/
def index (a position : Term) : Term :=
  ⟨a.type.element?.getD a.type, .index a.expr position.expr⟩

/-- A selection of channels: a scalar for one channel, a vector otherwise. -/
def swizzle (a : Term) (channels : Swizzle) : Term :=
  ⟨.ofPrim (.vector a.type.prim.kind channels.dim), .swizzle a.expr channels⟩

/-! ### Calls -/

/-- A call of any function with a result of a given type. -/
def call (callee : Callee) (type : Ty) (args : List Term) : Term :=
  ⟨type, .call callee (args.map expr)⟩

/-- A call of a constructor whose arguments are known to fit. -/
def convert (target : Prim) (args : List Term) : Term :=
  call (.construct target) (.ofPrim target) args

/-- A vector of the scalar type of its first part. -/
def vector (dim : Dim) (first : Term) (rest : List Term) : Term :=
  convert (.vector first.type.prim.kind dim) (first :: rest)

/-- The type of a function's result, given the type of its first argument. -/
def resultType (function : Intrinsic) (argument : Ty) : Ty :=
  match function with
  | .length | .distance | .dot | .determinant => .float
  | .any | .all => .bool
  | .lessThan | .lessThanEqual | .greaterThan | .greaterThanEqual | .equal | .notEqual =>
    match argument.prim with
    | .vector _ d => .ofPrim (.vector .bool d)
    | .matrix _ => argument
  | _ => argument

/-- A call of a library function whose arguments are written in the given order. -/
def apply (function : Intrinsic) (first : Term) (rest : List Term) : Term :=
  call (.intrinsic function) (resultType function first.type) (first :: rest)

/-- `0` below the edge and `1` from it on.  The edge is the first argument of the call. -/
def step (a edge : Term) : Term :=
  call (.intrinsic .step) a.type [edge, a]

/-- A smooth transition between two edges, which are the first arguments of the call. -/
def smoothStep (a edge₀ edge₁ : Term) : Term :=
  call (.intrinsic .smoothStep) a.type [edge₀, edge₁, a]

/-- A value read from a texture. -/
def sample (kind : SamplerKind) (name : String) (coords : Term) : Term :=
  let callee := if kind.isPaired then Callee.texture kind else Callee.texelFetch kind
  ⟨kind.texel, .call callee [.var (.sampler name), coords.expr]⟩

/-! ### Checked constructors -/

/-- The first argument that a constructor of `target` cannot take, if any. -/
def checkArgument (target : Prim) (a : Term) : Except Error Unit :=
  if a.type.dims ≠ [] then .error (.arrayArgument target)
  else if a.type.prim.scalar ≠ target.scalar then .error (.argumentScalar target a.type.prim)
  else .ok ()

/-- Whether the argument list is a single scalar, which fills every component of a vector. -/
def isSplat : List Term → Bool
  | [a] => a.type.prim.isScalar
  | _ => false

/-- The number of components of several terms together. -/
def componentCount : List Term → Nat
  | [] => 0
  | a :: rest => a.type.prim.components + componentCount rest

/-- A value of type `target` made of arguments whose shapes are checked: none is an array, all
have the scalar type of the target, and their components add up to those of the target, unless a
single scalar fills a vector. -/
def construct (target : Prim) (args : List Term) : Except Error Term := do
  if args.isEmpty then throw (.noArguments target)
  args.forM (checkArgument target)
  let components := componentCount args
  let splat := match target with
    | .vector .. => isSplat args
    | .matrix _ => false
  if splat || components = target.components then
    return convert target args
  else
    throw (.argumentCount target components)

end Term

end Shading
