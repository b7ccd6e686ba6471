import Shading.Layout.Allocate

/-!
# Entry points ready for emission

An entry point with everything resolved: its recorded body, what it uses and where that is bound.
-/

namespace Shading

structure Emission where
  decls : Declarations
  name : String
  stage : Stage
  body : Block
  usage : Usage
  layout : Layout

namespace Emission

def outputLocation (e : Emission) (name : String) : Nat :=
  (e.layout.output? name).getD 0

/-- The output that the colour of a fragment goes to: the one at location zero, or else the first
one used. -/
def primaryOutput? (e : Emission) : Option String :=
  match e.usage.outputs.toList.find? fun n ↦ e.layout.output? n = some 0 with
  | some n => some n
  | none => e.usage.outputs.toList.head?

/-- Used fragment outputs with their locations, by location. -/
def outputsByLocation (e : Emission) : List (String × Nat) :=
  Layout.sortByLocation (e.usage.outputs.toList.map fun n ↦ (n, e.outputLocation n))

/-- Used varyings with their locations, by location. -/
def varyingsByLocation (e : Emission) : List (String × Nat) :=
  Layout.sortByLocation (e.usage.varyings.toList.map fun n ↦ (n, (e.layout.varying? n).getD 0))

def usesBuiltin (e : Emission) (b : Builtin) : Bool :=
  b ∈ e.usage.builtins

end Emission

/-! ### Looking declarations up -/

namespace Declarations

def find {α : Type} (table : Table α) (kind : DeclKind) (name : String) : Except Error α :=
  match table.get? name with
  | some a => return a
  | none => throw (.undeclared kind name)

def uniform (d : Declarations) (name : String) : Except Error UniformDecl :=
  find d.uniforms .uniform name

def uniformStruct (d : Declarations) (name : String) : Except Error StructUniformDecl :=
  find d.uniformStructs .structUniform name

def sampler (d : Declarations) (name : String) : Except Error SamplerDecl :=
  find d.samplers .sampler name

def vertexAttribute (d : Declarations) (name : String) : Except Error AttributeDecl :=
  find d.attributes .vertexAttribute name

def varying (d : Declarations) (name : String) : Except Error VaryingDecl :=
  find d.varyings .varying name

def output (d : Declarations) (name : String) : Except Error OutputDecl :=
  find d.outputs .output name

def helper (d : Declarations) (name : String) : Except Error Helper :=
  find d.helpers .function name

def constant (d : Declarations) (index : Nat) : Except Error Term :=
  match d.constants[index]? with
  | some c => return c
  | none => throw (.undeclaredConstant index)

end Declarations

/-- Merge lists of definitions, keeping the first definition of every name. -/
def StructDef.merge (known more : List StructDef) : List StructDef :=
  more.foldl (fun known s ↦ if known.any (·.name == s.name) then known else known ++ [s]) known

end Shading
