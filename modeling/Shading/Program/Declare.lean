import Shading.Program.Basic

/-!
# Declarations

Every function here is a change of a program that adds one declaration or fails.  A change that
fails keeps what it did before, so whatever can fail is looked at before anything is added.
-/

namespace Shading

/-- A change of a program.  What is done before an error stays done. -/
abbrev Change := ExceptT Error (StateM Program)

/-- Make a change: what comes of it, and the program after it. -/
def Change.make {α : Type} (c : Change α) (p : Program) : Except Error α × Program :=
  c.run.run p

namespace Program

/-- Fail if a name is taken. -/
def checkName (kind : DeclKind) (name : String) (taken : Program → Bool) : Change Unit := do
  if taken (← get) then throw (.duplicate kind name)

/-- Add a declaration under a name that is not taken. -/
def declare (kind : DeclKind) (name : String) (taken : Program → Bool)
    (add : Program → Program) : Change Unit := do
  checkName kind name taken
  modify add

/-- Uniforms, struct uniforms and samplers share a name space. -/
def usesUniformName (p : Program) (name : String) : Bool :=
  p.uniforms.contains name || p.uniformStructs.contains name || p.samplers.contains name

def addUniform (name : String) (type : Ty) (binding : Binding) : Change Unit :=
  declare .uniform name (·.usesUniformName name) fun p ↦
    { p with uniforms := p.uniforms.add name ⟨type, binding⟩ }

/-- Whether a definition differs from a known one of the same name. -/
def conflicts (p : Program) (struct : StructDef) : Bool :=
  match p.structs.get? struct.name with
  | some known => known ≠ struct
  | none => false

/-- Fail if a definition differs from a known one of the same name. -/
def checkStruct (struct : StructDef) : Change Unit := do
  if (← get).conflicts struct then throw (.duplicate .struct struct.name)

/-- Keep a definition, unless one of the same name is known. -/
def keepStruct (struct : StructDef) : Change Unit :=
  modify fun p ↦ { p with structs := p.structs.add struct.name struct }

/-- Declare a struct uniform.  The definitions that it brings along must agree with the known ones
of the same names; none of them is kept before all are checked. -/
def addUniformStruct (name : String) (struct : StructDef) (binding : Binding) : Change Unit := do
  checkName .uniform name (·.usesUniformName name)
  let structs := struct.withDependencies
  structs.forM checkStruct
  structs.forM keepStruct
  modify fun p ↦ { p with uniformStructs := p.uniformStructs.add name ⟨struct, binding⟩ }

def addAttribute (name : String) (type : Ty) (location : Option UInt32) : Change Unit :=
  declare .vertexAttribute name (·.attributes.contains name) fun p ↦
    { p with attributes := p.attributes.add name ⟨type, location⟩ }

def addVarying (name : String) (varying : VaryingDecl) : Change Unit :=
  declare .varying name (·.varyings.contains name) fun p ↦
    { p with varyings := p.varyings.add name varying }

def addSampler (name : String) (kind : SamplerKind) (binding : Binding) : Change Unit :=
  declare .uniform name (·.usesUniformName name) fun p ↦
    { p with samplers := p.samplers.add name ⟨kind, binding⟩ }

def addOutput (name : String) (type : Ty) (location : Option UInt32) : Change Unit :=
  declare .output name (·.outputs.contains name) fun p ↦
    { p with outputs := p.outputs.add name ⟨type, location⟩ }

/-- Constants are numbered with 16 bits. -/
def maxConstants : Nat := 65536

/-- Declare a constant and return the term that stands for it. -/
@[inline]
def addConstant (value : Term) : Change Term := do
  let n := (← get).constants.size
  unless n < maxConstants do throw (.tooManyConstants n)
  modify fun p ↦ { p with constants := p.constants.push value }
  return .ofHandle value.type (.constant n)

/-- The terms that stand for the arguments of a helper. -/
def arguments (params : List Ty) : List Term :=
  params.mapIdx fun i t ↦ .ofHandle t (.argument i)

/-- Declare a helper function.  Its body is recorded at once and gives the returned value. -/
def addHelper (name : String) (params : List Ty) (body : Recorder (Option Term)) :
    Change Unit := do
  checkName .function name (·.helpers.contains name)
  let (result, block) ← ofExcept body.record
  modify fun p ↦ { p with helpers := p.helpers.add name ⟨params, block, result⟩ }

/-- Add an entry point.  Its body is not recorded here. -/
def addEntry (name : String) (stage : Stage) (body : Recorder Unit) : Change Unit :=
  declare .entryPoint name (·.entries.contains name) fun p ↦
    { p with entries := p.entries.add name (.new stage body) }

end Program

end Shading
