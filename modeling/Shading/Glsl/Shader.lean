import Shading.Glsl.Names
import Shading.Program.Basic

/-!
# GLSL shaders

A shader as a value and its text.  The text is made of items in a fixed order, and the items of
parts with empty lines between them.
-/

namespace Shading.Glsl

inductive Directive where
  | version300
  | extension (name behavior : String)
  | precision (precision : Precision)
  deriving DecidableEq, Repr

def Directive.text : Directive → String
  | version300 => "#version 300 es\n"
  | extension name behavior => "#extension " ++ name ++ " : " ++ behavior ++ "\n"
  | precision p => "precision " ++ p.text ++ " float;\n"

/-- Qualifiers of a varying in version 3.00. -/
structure VaryingQualifiers where
  interpolation : Option Interpolation
  sampling : Option Sampling
  stage : Stage
  deriving DecidableEq, Repr

def interpolationText : Option Interpolation → String
  | some .perspective => "smooth "
  | some .linear => "noperspective "
  | some .flat => "flat "
  | none => ""

def samplingText : Option Sampling → String
  | some .centroid => "centroid "
  | some .sample => "sample "
  | some .center => ""
  | none => ""

def directionText : Stage → String
  | .vertex => "out "
  | .fragment => "in "

def VaryingQualifiers.text (q : VaryingQualifiers) : String :=
  interpolationText q.interpolation ++ samplingText q.sampling ++ directionText q.stage

/-- Declarations outside of functions. -/
inductive Global where
  /-- An attribute, with its location in version 3.00. -/
  | input (location : Option Nat) (type : Code.TypeName) (name : String)
  /-- A varying, with its qualifiers in version 3.00. -/
  | varying (qualifiers : Option VaryingQualifiers) (type : Code.TypeName) (name : String)
  | output (location : Nat) (type : Code.TypeName) (name : String)
  /-- The memory layout of all blocks that follow. -/
  | blockLayout
  | struct (name : String) (fields : List (Code.TypeName × String))
  | uniform (type : Code.TypeName) (name : String)
  | block (name : String) (fields : List (Code.TypeName × String)) (instanceName : String)
  deriving DecidableEq, Repr

def fieldsText (fields : List (Code.TypeName × String)) : String :=
  String.join (fields.map fun (t, n) ↦ Code.indent 1 ++ declText t n ++ ";\n")

def Global.text : Global → String
  | input none t n => "attribute " ++ declText t n ++ ";\n"
  | input (some l) t n => "layout(location = " ++ toString l ++ ") in " ++ declText t n ++ ";\n"
  | varying none t n => "varying " ++ declText t n ++ ";\n"
  | varying (some q) t n => q.text ++ declText t n ++ ";\n"
  | output l t n => "layout(location = " ++ toString l ++ ") out " ++ declText t n ++ ";\n"
  | blockLayout => "layout(std140, column_major) uniform;\n"
  | struct n fields => "struct " ++ n ++ " \x7b\n" ++ fieldsText fields ++ "\x7d;\n"
  | uniform t n => "uniform " ++ declText t n ++ ";\n"
  | block n fields i => "uniform " ++ n ++ " \x7b\n" ++ fieldsText fields ++ "\x7d " ++ i ++ ";\n"

def constantText (c : Code.Constant) : String :=
  "const " ++ declText c.type c.name ++ " = " ++ c.value.text ++ ";\n"

def functionText (f : Code.Function) : String :=
  let result := match f.result with
    | none => "void"
    | some t => typeText t
  let params := ", ".intercalate (f.params.map fun (t, n) ↦ declText t n)
  result ++ " " ++ f.name ++ "(" ++ params ++ ") \x7b\n" ++
    Code.Statement.textAll dialect 1 f.body ++ "\x7d\n"

structure Shader where
  header : List Directive
  /-- Attributes and varyings. -/
  inputs : List Global
  outputs : List Global
  uniforms : List Global
  constants : List Code.Constant
  functions : List Code.Function
  main : List Code.Statement

inductive Item where
  | directive (directive : Directive)
  | global (declaration : Global)
  | constant (constant : Code.Constant)
  | function (function : Code.Function)
  | main (body : List Code.Statement)

def Item.text : Item → String
  | directive d => d.text
  | global g => g.text
  | constant c => constantText c
  | function f => functionText f
  | main body => functionText ⟨"main", [], none, body⟩

namespace Shader

def parts (s : Shader) : List (List Item) :=
  [s.header.map .directive, s.inputs.map .global, s.outputs.map .global, s.uniforms.map .global,
    s.constants.map .constant] ++ s.functions.map (fun f ↦ [.function f]) ++ [[.main s.main]]

/-- All items in the order of the text. -/
def items (s : Shader) : List Item :=
  s.parts.flatten

def text (s : Shader) : String :=
  Code.partsText (s.parts.map (List.map Item.text))

end Shader

end Shading.Glsl
