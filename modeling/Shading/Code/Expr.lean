import Shading.Code.Token

/-!
# Expressions of shader code

An expression in the terms of a target language: operators, calls, and accesses to members and
elements.  It is written with as few parentheses as the grades of its operands allow.
-/

namespace Shading.Code

inductive Expr where
  | word (text : String)
  | unary (op : UnaryOp) (operand : Expr)
  | binary (op : BinaryOp) (left right : Expr)
  | call (callee : String) (args : List Expr)
  | member (object : Expr) (name : String)
  | index (object position : Expr)
  /-- An expression with something attached to the end of its text. -/
  | suffixed (object : Expr) (suffix : String)

/-- How tightly an expression holds together. -/
inductive Grade where
  /-- Names, numbers, calls and accesses. -/
  | atomic
  | unary
  /-- Products, quotients and remainders. -/
  | multiplicative
  /-- Sums and differences. -/
  | additive
  /-- Comparisons, logic, bits and shifts. -/
  | other
  deriving DecidableEq, Repr

/-- The grade of an operator's result. -/
def gradeOf : BinaryOp → Grade
  | .mul => .multiplicative
  | .div => .multiplicative
  | .rem => .multiplicative
  | .add => .additive
  | .sub => .additive
  | _ => .other

inductive Side where
  | left
  | right
  deriving DecidableEq, Repr

/-- Whether an operand of a binary operator stands in parentheses. -/
def needsParens (op : BinaryOp) (side : Side) (operand : Grade) : Bool :=
  match operand with
  | .atomic => false
  | .unary => (op == .div || op == .rem) && side == .right
  | .other => true
  | .multiplicative =>
    match op with
    | .add => false
    | .sub => false
    | .mul => false
    | .div => side == .right
    | .rem => side == .right
    | _ => true
  | .additive =>
    match op with
    | .add => false
    | .sub => side == .right
    | _ => true

namespace Expr

/-- An operand that is left out where a language would want one. -/
def blank : Expr := .word ""

def grade : Expr → Grade
  | word _ => .atomic
  | unary .. => .unary
  | binary op _ _ => gradeOf op
  | call .. => .atomic
  | member .. => .atomic
  | index .. => .atomic
  | suffixed .. => .atomic

/-- Tokens in parentheses if asked for. -/
def wrap (parens : Bool) (tokens : List Token) : List Token :=
  if parens then .openParen :: tokens ++ [.closeParen] else tokens

mutual

def tokens : Expr → List Token
  | word s => [.word s]
  | unary op a => .unary op :: wrap (a.grade != .atomic) (tokens a)
  | binary op a b =>
    wrap (needsParens op .left a.grade) (tokens a) ++
      .binary op :: wrap (needsParens op .right b.grade) (tokens b)
  | call callee args => .word callee :: .openParen :: tokensSeparated args ++ [.closeParen]
  | member a name => wrap (a.grade != .atomic) (tokens a) ++ [.dot, .word name]
  | index a i =>
    wrap (a.grade != .atomic) (tokens a) ++ .openIndex :: tokens i ++ [.closeIndex]
  | suffixed a suffix => tokens a ++ [.word suffix]

/-- The tokens of several expressions with commas between them. -/
def tokensSeparated : List Expr → List Token
  | [] => []
  | [e] => tokens e
  | e :: rest => tokens e ++ .comma :: tokensSeparated rest

end

def text (e : Expr) : String :=
  String.join (e.tokens.map Token.text)

end Expr

end Shading.Code
