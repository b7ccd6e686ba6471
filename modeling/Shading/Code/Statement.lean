import Shading.Body.Statement
import Shading.Code.Expr

/-!
# Statements of shader code

Statements in the terms of a target language.  The languages differ only in how they declare a
variable and in whether conditions stand in parentheses; a `Dialect` says both.
-/

namespace Shading.Code

/-- A type of a target language before it is spelled: a primitive type or a named one, with array
dimensions, the outermost first. -/
inductive BaseType where
  | prim (prim : Prim)
  | named (name : String)
  deriving DecidableEq, Repr

structure TypeName where
  base : BaseType
  dims : List Nat
  deriving DecidableEq, Repr

namespace TypeName

def ofTy (t : Ty) : TypeName :=
  ⟨.prim t.prim, t.dims⟩

def named (name : String) : TypeName :=
  ⟨.named name, []⟩

end TypeName

mutual

inductive Statement where
  | declare (type : TypeName) (name : String) (init : Option Expr)
  | assign (target : Expr) (op : Option UpdateOp) (value : Expr)
  | leave (value : Option Expr)
  | skip
  | stop
  | discard
  | branch (condition : Expr) (body : List Statement) (rest : Otherwise)
  | forLoop (type : TypeName) (counter : String) (init condition next : Expr)
    (body : List Statement)
  | whileLoop (condition : Expr) (body : List Statement)
  | verbatim (text : String)

inductive Otherwise where
  | nothing
  | always (body : List Statement)
  | test (condition : Expr) (body : List Statement) (rest : Otherwise)

end

/-- A function with typed and named parameters. -/
structure Function where
  name : String
  params : List (TypeName × String)
  result : Option TypeName
  body : List Statement

/-- A constant at the top of a module. -/
structure Constant where
  name : String
  type : TypeName
  value : Expr

/-- What the target languages write differently in statements. -/
structure Dialect where
  /-- The start of a declaration of a variable. -/
  declare : TypeName → String → String
  condition : String → String

/-- Two blanks for each level of nesting. -/
def indent (level : Nat) : String :=
  String.ofList (List.replicate (2 * level) ' ')

mutual

/-- The text of a statement, with the line break at its end. -/
def Statement.text (d : Dialect) (level : Nat) : Statement → String
  | .declare type name init =>
    let value := match init with
      | none => ""
      | some e => " = " ++ e.text
    indent level ++ d.declare type name ++ value ++ ";\n"
  | .assign target op value =>
    let symbol := match op with
      | none => "="
      | some op => op.symbol
    indent level ++ target.text ++ " " ++ symbol ++ " " ++ value.text ++ ";\n"
  | .leave none => indent level ++ "return;\n"
  | .leave (some e) => indent level ++ "return " ++ e.text ++ ";\n"
  | .skip => indent level ++ "continue;\n"
  | .stop => indent level ++ "break;\n"
  | .discard => indent level ++ "discard;\n"
  | .branch condition body rest =>
    indent level ++ "if " ++ d.condition condition.text ++ " \x7b\n" ++
      Statement.textAll d (level + 1) body ++ indent level ++ "\x7d" ++
      Otherwise.text d level rest ++ "\n"
  | .forLoop type counter init condition next body =>
    indent level ++ "for (" ++ d.declare type counter ++ " = " ++ init.text ++ "; " ++
      condition.text ++ "; " ++ counter ++ " = " ++ next.text ++ ") \x7b\n" ++
      Statement.textAll d (level + 1) body ++ indent level ++ "\x7d\n"
  | .whileLoop condition body =>
    indent level ++ "while " ++ d.condition condition.text ++ " \x7b\n" ++
      Statement.textAll d (level + 1) body ++ indent level ++ "\x7d\n"
  | .verbatim s => indent level ++ s ++ "\n"

def Statement.textAll (d : Dialect) (level : Nat) : List Statement → String
  | [] => ""
  | s :: ss => Statement.text d level s ++ Statement.textAll d level ss

def Otherwise.text (d : Dialect) (level : Nat) : Otherwise → String
  | .nothing => ""
  | .always body =>
    " else \x7b\n" ++ Statement.textAll d (level + 1) body ++ indent level ++ "\x7d"
  | .test condition body rest =>
    " else if " ++ d.condition condition.text ++ " \x7b\n" ++
      Statement.textAll d (level + 1) body ++ indent level ++ "\x7d" ++
      Otherwise.text d level rest

end

/-- Parts one after the other with an empty line between them.  A part without items is left
out. -/
def partsText (parts : List (List String)) : String :=
  "\n".intercalate ((parts.filter (!·.isEmpty)).map String.join)

end Shading.Code
