import Shading.Expr

/-!
# Tokens of shader code

Both target languages write expressions with the same tokens.  The text of a token includes the
blanks around it.
-/

namespace Shading

namespace UnaryOp

def symbol : UnaryOp → String
  | not => "!"
  | neg => "-"

end UnaryOp

namespace BinaryOp

/-- How the operator is written.  Only GLSL has an exclusive or of booleans. -/
def symbol : BinaryOp → String
  | and => "&&"
  | or => "||"
  | xor => "^^"
  | bitOr => "|"
  | bitAnd => "&"
  | bitXor => "^"
  | add => "+"
  | sub => "-"
  | mul => "*"
  | div => "/"
  | rem => "%"
  | shl => "<<"
  | shr => ">>"
  | eq => "=="
  | ne => "!="
  | lt => "<"
  | le => "<="
  | gt => ">"
  | ge => ">="

end BinaryOp

namespace Code

inductive Token where
  /-- A name, a type or the digits of a number. -/
  | word (text : String)
  | unary (op : UnaryOp)
  | binary (op : BinaryOp)
  | openParen
  | closeParen
  | comma
  | dot
  | openIndex
  | closeIndex
  deriving DecidableEq, Repr

def Token.text : Token → String
  | word s => s
  | unary op => op.symbol
  | binary op => " " ++ op.symbol ++ " "
  | openParen => "("
  | closeParen => ")"
  | comma => ", "
  | dot => "."
  | openIndex => "["
  | closeIndex => "]"

end Code

end Shading
