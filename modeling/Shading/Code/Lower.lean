import Shading.Code.Statement
import Shading.Program.Basic

/-!
# From recorded bodies to code

Statements are carried over one by one; a target language says how it writes expressions and types
and how a function is left.
-/

namespace Shading.Code

/-- What a target language contributes. -/
structure Target where
  expr : Shading.Expr → Except Error Expr
  type : Ty → Except Error TypeName
  /-- The statements that leave the function, with a value or without. -/
  leave : Option Expr → List Statement
  /-- Which of the texts of a raw statement is meant, the one for GLSL or the one for WGSL. -/
  raw : String → String → String

namespace Target

def option (t : Target) : Option Shading.Expr → Except Error (Option Expr)
  | none => return none
  | some e => return some (← t.expr e)

mutual

def statement (t : Target) : Shading.Statement → Except Error (List Statement)
  | .declare type h init => do
    let type ← t.type type
    return [.declare type h.text (← t.option init)]
  | .assign target op value => return [.assign (← t.expr target) op (← t.expr value)]
  | .leave value => return t.leave (← t.option value)
  | .skip => return [.skip]
  | .stop => return [.stop]
  | .discard => return [.discard]
  | .branch condition body rest => do
    let condition ← t.expr condition
    let body ← block t body
    return [.branch condition body (← otherwise t rest)]
  | .forLoop type h init condition next body => do
    let type ← t.type type
    let init ← t.expr init
    let condition ← t.expr condition
    let next ← t.expr next
    return [.forLoop type h.text init condition next (← block t body)]
  | .whileLoop condition body => do
    let condition ← t.expr condition
    return [.whileLoop condition (← block t body)]
  | .raw glsl wgsl => return [.verbatim (t.raw glsl wgsl)]

def block (t : Target) : List Shading.Statement → Except Error (List Statement)
  | [] => return []
  | s :: ss => do
    let first ← statement t s
    return first ++ (← block t ss)

def otherwise (t : Target) : Shading.Otherwise → Except Error Otherwise
  | .nothing => return .nothing
  | .always body => return .always (← block t body)
  | .test condition body rest => do
    let condition ← t.expr condition
    let body ← block t body
    return .test condition body (← otherwise t rest)

end

def resultType (t : Target) : Option Term → Except Error (Option TypeName)
  | none => return none
  | some r => return some (← t.type r.type)

/-- A helper function, which leaves with its result at the end. -/
def function (t : Target) (name : String) (h : Helper) : Except Error Function := do
  let result ← t.resultType h.result
  let params ← h.params.mapM t.type
  let body ← t.block h.body
  let last ← t.option (h.result.map Term.expr)
  let tail := match last with
    | none => []
    | some e => [Statement.leave (some e)]
  return ⟨name, params.mapIdx fun i p ↦ (p, (Handle.argument i).text), result, body ++ tail⟩

def constant (t : Target) (index : Nat) (value : Term) : Except Error Constant := do
  let type ← t.type value.type
  return ⟨(Handle.constant index).text, type, ← t.expr value.expr⟩

end Target

end Shading.Code
