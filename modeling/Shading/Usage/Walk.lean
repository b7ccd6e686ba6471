import Shading.Program.Basic

/-!
# Usage analysis

A walk over the body of an entry point in the order in which it is written.  The first call of a
helper is followed into the helper's body, and the first use of a constant into its value; both are
noted only when that is done, so that they come after all they depend on.

A helper that is called while it is being followed calls itself, which is an error.  The walk ends
since helpers that are being followed differ from each other, and so do the constants between one
helper and the next unless a constant refers to itself.
-/

namespace Shading.Usage

abbrev Walk := StateT Usage (Except Error)

namespace Walk

/-! ### Expressions -/

/-- Note a handle.  A constant is left to `constant`. -/
def handle (d : Declarations) (stage : Stage) (constant : Nat → Walk Unit) : Handle → Walk Unit
  | .builtin b =>
    if b.stage = stage then modify fun u ↦ { u with builtins := u.builtins.insert b }
    else throw (.foreignBuiltin b stage)
  | .constant i => constant i
  | .argument _ => pure ()
  | .localVar .. => pure ()
  | .uniform n =>
    if d.uniforms.contains n then modify (·.addUniform n) else throw (.undeclared .uniform n)
  | .uniformStruct n =>
    if d.uniformStructs.contains n then modify (·.addUniformStruct n)
    else throw (.undeclared .structUniform n)
  | .sampler n =>
    if d.samplers.contains n then modify (·.addSampler n) else throw (.undeclared .sampler n)
  | .vertexAttribute n =>
    if !d.attributes.contains n then throw (.undeclared .vertexAttribute n)
    else if stage ≠ .vertex then throw (.foreignResource .vertexAttribute n stage)
    else modify fun u ↦ { u with attributes := u.attributes.insert n }
  | .varying n =>
    if d.varyings.contains n then modify fun u ↦ { u with varyings := u.varyings.insert n }
    else throw (.undeclared .varying n)
  | .output n =>
    if !d.outputs.contains n then throw (.undeclared .output n)
    else if stage ≠ .fragment then throw (.foreignResource .output n stage)
    else modify fun u ↦ { u with outputs := u.outputs.insert n }

mutual

/-- Note everything in an expression, children first. -/
def expr (onHandle : Handle → Walk Unit) (onCall : String → Walk Unit) : Expr → Walk Unit
  | .lit _ => pure ()
  | .array _ items => exprs onHandle onCall items
  | .var h => onHandle h
  | .unary _ a => expr onHandle onCall a
  | .binary _ a b => do
    expr onHandle onCall a
    expr onHandle onCall b
  | .call callee args => do
    exprs onHandle onCall args
    match callee with
    | .helper name => onCall name
    | _ => pure ()
  | .swizzle a _ => expr onHandle onCall a
  | .field a _ => expr onHandle onCall a
  | .index a i => do
    expr onHandle onCall a
    expr onHandle onCall i

def exprs (onHandle : Handle → Walk Unit) (onCall : String → Walk Unit) : List Expr → Walk Unit
  | [] => pure ()
  | e :: es => do
    expr onHandle onCall e
    exprs onHandle onCall es

end

/-! ### Statements -/

/-- Note a returned value.  Only returns of the entry point itself count as returns. -/
def leave (onExpr : Expr → Walk Unit) (inHelper : Bool) (value : Option Expr) : Walk Unit := do
  unless inHelper do
    modify (·.addReturn value.isSome)
  match value with
  | none => pure ()
  | some e => onExpr e

mutual

def statement (stage : Stage) (inHelper : Bool) (onExpr : Expr → Walk Unit) :
    Statement → Walk Unit
  | .declare _ _ init =>
    match init with
    | none => pure ()
    | some e => onExpr e
  | .assign target _ value => do
    onExpr target
    onExpr value
    match target.root? with
    | none => pure ()
    | some h => modify (·.addWrite h)
  | .leave value => leave onExpr inHelper value
  | .skip => pure ()
  | .stop => pure ()
  | .discard =>
    if stage = .fragment then modify fun u ↦ { u with discards := true }
    else throw (.foreignDiscard stage)
  | .branch condition body rest => do
    onExpr condition
    statements stage inHelper onExpr body
    otherwise stage inHelper onExpr rest
  | .forLoop _ _ init condition next body => do
    onExpr init
    onExpr condition
    onExpr next
    statements stage inHelper onExpr body
  | .whileLoop condition body => do
    onExpr condition
    statements stage inHelper onExpr body
  | .raw .. => pure ()

def statements (stage : Stage) (inHelper : Bool) (onExpr : Expr → Walk Unit) :
    List Statement → Walk Unit
  | [] => pure ()
  | s :: ss => do
    statement stage inHelper onExpr s
    statements stage inHelper onExpr ss

def otherwise (stage : Stage) (inHelper : Bool) (onExpr : Expr → Walk Unit) :
    Otherwise → Walk Unit
  | .nothing => pure ()
  | .always body => statements stage inHelper onExpr body
  | .test condition body rest => do
    onExpr condition
    statements stage inHelper onExpr body
    otherwise stage inHelper onExpr rest

end

/-! ### Constants and helpers -/

/-- Follow a constant.  `fuel` bounds the chain of constants that refer to each other: a chain
longer than there are constants refers to itself. -/
def constant (d : Declarations) (stage : Stage) (onCall : String → Walk Unit) :
    Nat → Nat → Walk Unit
  | 0, i => throw (.constantCycle i)
  | fuel + 1, i => do
    if i ∈ (← get).constants then return ()
    match d.constants[i]? with
    | none => throw (.undeclaredConstant i)
    | some value =>
      expr (handle d stage fun j ↦ constant d stage onCall fuel j) onCall value.expr
      modify fun u ↦ { u with constants := u.constants.insert i }

/-- Note everything in an expression, following constants. -/
def deepExpr (d : Declarations) (stage : Stage) (onCall : String → Walk Unit) : Expr → Walk Unit :=
  expr (handle d stage (constant d stage onCall (d.constants.size + 1))) onCall

/-- Follow a helper.  `active` are the helpers being followed and `fuel` bounds how many more can be
entered, which is never reached since they are all different. -/
def helper (d : Declarations) (stage : Stage) : Nat → List String → String → Walk Unit
  | 0, _, name => throw (.recursiveHelper name)
  | fuel + 1, active, name => do
    if name ∈ (← get).helpers then return ()
    if name ∈ active then throw (.recursiveHelper name)
    match d.helpers.get? name with
    | none => throw (.undeclared .function name)
    | some h =>
      let onExpr := deepExpr d stage fun n ↦ helper d stage fuel (name :: active) n
      statements stage true onExpr h.body
      leave onExpr true (h.result.map Term.expr)
      modify fun u ↦ { u with helpers := u.helpers.insert name }

end Walk

/-- What the recorded body of an entry point uses. -/
def of (d : Declarations) (stage : Stage) (body : Block) : Except Error Usage := do
  let onCall := Walk.helper d stage (d.helpers.size + 1) []
  let ((), usage) ← (Walk.statements stage false (Walk.deepExpr d stage onCall) body).run .empty
  return usage

end Shading.Usage
