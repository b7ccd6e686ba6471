import Shading.Expr

/-!
# Statements

The recorded body of an entry point or of a helper function.  A conditional carries its alternatives
as a chain of further conditions that may end in an unconditional body.
-/

namespace Shading

/-- Operator of a compound assignment. -/
inductive UpdateOp where
  | add
  | sub
  | mul
  | div
  | rem
  | bitXor
  | bitAnd
  | bitOr
  | shl
  | shr
  deriving DecidableEq, Repr

def UpdateOp.symbol : UpdateOp → String
  | add => "+="
  | sub => "-="
  | mul => "*="
  | div => "/="
  | rem => "%="
  | bitXor => "^="
  | bitAnd => "&="
  | bitOr => "|="
  | shl => "<<="
  | shr => ">>="

mutual

inductive Statement where
  | declare (type : Ty) (handle : Handle) (init : Option Expr)
  /-- Assignment, compound if there is an operator. -/
  | assign (target : Expr) (op : Option UpdateOp) (value : Expr)
  | leave (value : Option Expr)
  | skip
  | stop
  | discard
  | branch (condition : Expr) (body : List Statement) (rest : Otherwise)
  | forLoop (type : Ty) (counter : Handle) (init condition next : Expr) (body : List Statement)
  | whileLoop (condition : Expr) (body : List Statement)
  /-- Source text, one version for each language. -/
  | raw (glsl wgsl : String)

/-- What happens when the condition of a conditional fails. -/
inductive Otherwise where
  | nothing
  | always (body : List Statement)
  | test (condition : Expr) (body : List Statement) (rest : Otherwise)

end

abbrev Block := List Statement

/-- Whether the last statement leaves the function. -/
def Block.endsWithLeave (b : Block) : Bool :=
  match b.getLast? with
  | some (.leave _) => true
  | _ => false

end Shading
