import Shading.Program.Basic
import Shading.Wgsl.Names

/-!
# WGSL modules

A module as a value and its text.  The text is made of items in a fixed order, and the items of
parts with empty lines between them.
-/

namespace Shading.Wgsl

inductive Attribute where
  | builtin (name : String)
  | location (index : Nat)
  | interpolate (interpolation : Interpolation) (sampling : Option Sampling)
  deriving DecidableEq, Repr

def interpolationText : Interpolation → String
  | .perspective => "perspective"
  | .linear => "linear"
  | .flat => "flat"

def samplingText : Sampling → String
  | .center => "center"
  | .centroid => "centroid"
  | .sample => "sample"

def Attribute.text : Attribute → String
  | builtin name => "@builtin(" ++ name ++ ")"
  | location i => "@location(" ++ toString i ++ ")"
  | interpolate i none => "@interpolate(" ++ interpolationText i ++ ")"
  | interpolate i (some s) =>
    "@interpolate(" ++ interpolationText i ++ ", " ++ samplingText s ++ ")"

def attributesText (attributes : List Attribute) : String :=
  String.join (attributes.map fun a ↦ a.text ++ " ")

/-- A field of a struct or a parameter of a function. -/
structure Member where
  attributes : List Attribute
  name : String
  type : Code.TypeName
  deriving DecidableEq, Repr

def Member.text (m : Member) : String :=
  attributesText m.attributes ++ declText m.name m.type

structure Struct where
  name : String
  fields : List Member
  deriving DecidableEq, Repr

def Struct.text (s : Struct) : String :=
  "struct " ++ s.name ++ " \x7b\n" ++
    String.join (s.fields.map fun m ↦ Code.indent 1 ++ m.text ++ ",\n") ++ "\x7d\n"

/-- A resource: a uniform buffer, a texture or a sampler object. -/
structure Resource where
  group : Nat
  index : Nat
  isUniform : Bool
  name : String
  type : Code.TypeName
  deriving DecidableEq, Repr

def Resource.text (r : Resource) : String :=
  "@group(" ++ toString r.group ++ ") @binding(" ++ toString r.index ++ ") " ++
    (if r.isUniform then "var<uniform> " else "var ") ++ declText r.name r.type ++ ";\n"

def constantText (c : Code.Constant) : String :=
  "const " ++ declText c.name c.type ++ " = " ++ c.value.text ++ ";\n"

def functionText (f : Code.Function) : String :=
  let params := ", ".intercalate (f.params.map fun (t, n) ↦ declText n t)
  let result := match f.result with
    | none => ""
    | some t => " -> " ++ typeText t
  "fn " ++ f.name ++ "(" ++ params ++ ")" ++ result ++ " \x7b\n" ++
    Code.Statement.textAll dialect 1 f.body ++ "\x7d\n"

/-- The function that a stage runs. -/
structure EntryFunction where
  stage : Stage
  name : String
  params : List Member
  resultAttributes : List Attribute
  result : Code.TypeName
  body : List Code.Statement

def EntryFunction.text (f : EntryFunction) : String :=
  "@" ++ f.stage.text ++ "\nfn " ++ f.name ++ "(" ++ ", ".intercalate (f.params.map Member.text) ++
    ") -> " ++ attributesText f.resultAttributes ++ typeText f.result ++ " \x7b\n" ++
    Code.Statement.textAll dialect 1 f.body ++ "\x7d\n"

structure Module where
  structs : List Struct
  resources : List Resource
  constants : List Code.Constant
  functions : List Code.Function
  /-- Structs that carry stage inputs and outputs. -/
  interface : List Struct
  entry : EntryFunction

inductive Item where
  | struct (struct : Struct)
  | resource (resource : Resource)
  | constant (constant : Code.Constant)
  | function (function : Code.Function)
  | interface (struct : Struct)
  | entry (function : EntryFunction)

def Item.text : Item → String
  | struct s => s.text
  | resource r => r.text
  | constant c => constantText c
  | function f => functionText f
  | interface s => s.text
  | entry f => f.text

namespace Module

def parts (m : Module) : List (List Item) :=
  m.structs.map (fun s ↦ [.struct s]) ++ [m.resources.map .resource, m.constants.map .constant] ++
    m.functions.map (fun f ↦ [.function f]) ++ m.interface.map (fun s ↦ [.interface s]) ++
    [[.entry m.entry]]

/-- All items in the order of the text. -/
def items (m : Module) : List Item :=
  m.parts.flatten

def text (m : Module) : String :=
  Code.partsText (m.parts.map (List.map Item.text))

end Module

end Shading.Wgsl
