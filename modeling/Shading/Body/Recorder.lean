import Shading.Body.Statement
import Shading.Term

/-!
# Recording

Bodies are written as actions that record statements in a scope.  A scope knows how deep it is
nested and how many variables it has; a new variable gets the depth and the next number as its
handle.  Sibling scopes use the same handles again, since a variable is gone at the end of its
scope.

An action may give up with an error.  Then the whole recording fails.
-/

namespace Shading

/-- A scope that is being recorded. -/
structure Scope where
  depth : Nat
  declared : Nat
  statements : Block

namespace Scope

def empty (depth : Nat) : Scope :=
  ⟨depth, 0, []⟩

def push (s : Scope) (statement : Statement) : Scope :=
  { s with statements := s.statements ++ [statement] }

end Scope

/-- An action that records statements. -/
abbrev Recorder := StateT Scope (Except Error)

namespace Recorder

def emit (statement : Statement) : Recorder Unit :=
  modify (·.push statement)

/-- A handle for a new variable of the scope. -/
def fresh : Recorder Handle :=
  modifyGet fun s ↦ (.localVar s.depth s.declared, { s with declared := s.declared + 1 })

/-- Run an action in a new scope inside the current one. -/
def nest {α : Type} (action : Recorder α) : Recorder (α × Block) := do
  let (a, inner) ← action.run (.empty ((← get).depth + 1))
  return (a, inner.statements)

/-- Record a whole body. -/
def record {α : Type} (action : Recorder α) : Except Error (α × Block) := do
  let (a, scope) ← action.run (.empty 0)
  return (a, scope.statements)

/-! ### Variables -/

/-- Bind a value to a new variable. -/
def var (value : Term) : Recorder Term := do
  let h ← fresh
  emit (.declare value.type h (some value.expr))
  return .ofHandle value.type h

/-- A new variable without a value. -/
def declare (type : Ty) : Recorder Term := do
  let h ← fresh
  emit (.declare type h none)
  return .ofHandle type h

def set (target value : Term) : Recorder Unit :=
  emit (.assign target.expr none value.expr)

/-- Compound assignment.  The remainder of floats has no compound form, so it is assigned. -/
def update (target : Term) (op : UpdateOp) (value : Term) : Recorder Unit :=
  if op = .rem ∧ target.type.prim.kind = .float then
    emit (.assign target.expr none (Expr.floatRem target.expr value.expr))
  else
    emit (.assign target.expr (some op) value.expr)

/-! ### Leaving -/

/-- Leave the function with a value. -/
def leave (value : Term) : Recorder Unit :=
  emit (.leave (some value.expr))

/-- Leave the function without a value. -/
def abort : Recorder Unit :=
  emit (.leave none)

def discard : Recorder Unit :=
  emit .discard

def loopContinue : Recorder Unit :=
  emit .skip

def loopBreak : Recorder Unit :=
  emit .stop

def raw (glsl wgsl : String) : Recorder Unit :=
  emit (.raw glsl wgsl)

/-! ### Conditionals and loops -/

def otherwiseNothing : Recorder Otherwise :=
  pure .nothing

def otherwise (body : Recorder Unit) : Recorder Otherwise := do
  let (_, block) ← nest body
  return .always block

def otherwiseWhen (condition : Recorder Term) (body : Recorder Unit) (rest : Recorder Otherwise) :
    Recorder Otherwise := do
  let c ← condition
  let (_, block) ← nest body
  return .test c.expr block (← rest)

/-- A conditional.  The alternatives are recorded after the body. -/
def when (condition : Term) (body : Recorder Unit) (rest : Recorder Otherwise) :
    Recorder Unit := do
  let (_, block) ← nest body
  emit (.branch condition.expr block (← rest))

/-- A conditional on the negated condition. -/
def whenNot (condition : Term) (body : Recorder Unit) (rest : Recorder Otherwise) :
    Recorder Unit :=
  when condition.not body rest

def loopWhile (condition : Term) (body : Recorder Unit) : Recorder Unit := do
  let (_, block) ← nest body
  emit (.whileLoop condition.expr block)

/-- A counting loop.  The counter is the first variable of the scope of the loop's body. -/
def loopFor (init : Term) (condition next : Term → Recorder Term) (body : Term → Recorder Unit) :
    Recorder Unit := do
  let ((h, c, n), block) ← nest do
    let h ← fresh
    let counter := Term.ofHandle init.type h
    let c ← condition counter
    let n ← next counter
    body counter
    return (h, c, n)
  emit (.forLoop init.type h init.expr c.expr n.expr block)

end Recorder

end Shading
