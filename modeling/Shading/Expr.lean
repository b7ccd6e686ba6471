import Shading.Handle
import Shading.Literal
import Shading.Sampler

/-!
# Expressions

Untyped expression trees.  Every node that shows in the text of an expression is one of its
`children`, so a walk along them reaches everything the expression reads.
-/

namespace Shading

/-- A channel of a vector. -/
inductive Channel where
  | x
  | y
  | z
  | w
  deriving DecidableEq, Repr

namespace Channel

def letter : Channel → Char
  | x => 'x'
  | y => 'y'
  | z => 'z'
  | w => 'w'

/-- Channels have a position name and a colour name. -/
def ofLetter? : Char → Option Channel
  | 'x' => some x
  | 'r' => some x
  | 'y' => some y
  | 'g' => some y
  | 'z' => some z
  | 'b' => some z
  | 'w' => some w
  | 'a' => some w
  | _ => none

end Channel

/-- A selection of one to four channels. -/
structure Swizzle where
  dim : Dim
  channels : Vector Channel dim.size

namespace Swizzle

def ofList? (channels : List Channel) : Option Swizzle :=
  match channels with
  | [a] => some ⟨.one, #v[a]⟩
  | [a, b] => some ⟨.two, #v[a, b]⟩
  | [a, b, c] => some ⟨.three, #v[a, b, c]⟩
  | [a, b, c, d] => some ⟨.four, #v[a, b, c, d]⟩
  | _ => none

def text (s : Swizzle) : String :=
  String.ofList (s.channels.toList.map Channel.letter)

end Swizzle

inductive UnaryOp where
  | not
  | neg
  deriving DecidableEq, Repr

inductive BinaryOp where
  | and
  | or
  | xor
  | bitOr
  | bitAnd
  | bitXor
  | add
  | sub
  | mul
  | div
  | rem
  | shl
  | shr
  | eq
  | ne
  | lt
  | le
  | gt
  | ge
  deriving DecidableEq, Repr

/-- Functions that both target languages provide. -/
inductive Intrinsic where
  | radians | degrees | sin | cos | tan | asin | acos | atan
  | sinh | cosh | tanh | asinh | acosh | atanh
  | pow | exp | exp2 | log | log2 | sqrt | inverseSqrt
  | abs | sign | floor | trunc | round | ceil | fract
  | mod | min | max | clamp | mix | step | smoothStep
  | length | distance | dot | cross | normalize | faceForward | reflect | refract
  | transpose | determinant
  | lessThan | lessThanEqual | greaterThan | greaterThanEqual | equal | notEqual
  | any | all | notEach
  | dFdx | dFdy | fwidth
  deriving DecidableEq, Repr

/-- What a call node calls. -/
inductive Callee where
  /-- Constructor of, or conversion to, a primitive type. -/
  | construct (prim : Prim)
  | intrinsic (function : Intrinsic)
  /-- Filtered texture access. -/
  | texture (kind : SamplerKind)
  /-- Access to a single texel. -/
  | texelFetch (kind : SamplerKind)
  | helper (name : String)
  deriving DecidableEq, Repr

inductive Expr where
  | lit (value : Literal)
  | array (type : Ty) (items : List Expr)
  | var (handle : Handle)
  | unary (op : UnaryOp) (operand : Expr)
  | binary (op : BinaryOp) (left right : Expr)
  | call (callee : Callee) (args : List Expr)
  | swizzle (object : Expr) (channels : Swizzle)
  | field (object : Expr) (name : String)
  | index (object position : Expr)

namespace Expr

/-- The direct subexpressions, in the order in which they are written. -/
def children : Expr → List Expr
  | lit _ => []
  | array _ items => items
  | var _ => []
  | unary _ a => [a]
  | binary _ a b => [a, b]
  | call _ args => args
  | swizzle a _ => [a]
  | field a _ => [a]
  | index a i => [a, i]

/-- The handle that an assignment to the expression writes to, seen through swizzles, fields and
array elements. -/
def root? : Expr → Option Handle
  | var h => some h
  | swizzle a _ => a.root?
  | field a _ => a.root?
  | index a _ => a.root?
  | _ => none

def isMinusOne : Expr → Bool
  | lit v => v.isMinusOne
  | _ => false

/-- The product of two expressions.  A literal minus one on either side makes a negation of the
other side. -/
def mul (a b : Expr) : Expr :=
  if b.isMinusOne then unary .neg a
  else if a.isMinusOne then unary .neg b
  else binary .mul a b

/-- The remainder of floats, which is a function and not an operator in GLSL. -/
def floatRem (a b : Expr) : Expr :=
  call (.intrinsic .mod) [a, b]

end Expr

end Shading
