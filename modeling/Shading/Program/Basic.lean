import Shading.Body.Recorder
import Shading.Collection.Table
import Shading.Usage.Basic

/-!
# Programs

A program is a set of declarations and of named entry points.  Declarations are only ever added.
The body of an entry point is recorded when it is first needed, and what came out of the recording
and of the analysis is kept with the entry point.
-/

namespace Shading

/-- Where a uniform or a sampler asks to be bound. -/
structure Binding where
  group : UInt32
  index : Option UInt32
  deriving DecidableEq, Repr

/-- How a varying is interpolated between vertices. -/
inductive Interpolation where
  | perspective
  | linear
  | flat
  deriving DecidableEq, Repr

/-- Where in a pixel a varying is interpolated. -/
inductive Sampling where
  | center
  | centroid
  | sample
  deriving DecidableEq, Repr

structure UniformDecl where
  type : Ty
  binding : Binding

structure StructUniformDecl where
  struct : StructDef
  binding : Binding

structure AttributeDecl where
  type : Ty
  location : Option UInt32

structure VaryingDecl where
  type : Ty
  location : Option UInt32
  interpolation : Option Interpolation
  sampling : Option Sampling

structure SamplerDecl where
  kind : SamplerKind
  binding : Binding

structure OutputDecl where
  type : Ty
  location : Option UInt32

/-- A helper function with its recorded body and the value it returns at the end. -/
structure Helper where
  params : List Ty
  body : Block
  result : Option Term

/-- All that the code of entry points may refer to. -/
structure Declarations where
  uniforms : Table UniformDecl
  uniformStructs : Table StructUniformDecl
  /-- Every struct definition that occurs in a struct uniform, by its name. -/
  structs : Table StructDef
  attributes : Table AttributeDecl
  varyings : Table VaryingDecl
  samplers : Table SamplerDecl
  outputs : Table OutputDecl
  constants : Array Term
  helpers : Table Helper

def Declarations.empty : Declarations :=
  { uniforms := .empty, uniformStructs := .empty, structs := .empty, attributes := .empty
    varyings := .empty, samplers := .empty, outputs := .empty, constants := #[]
    helpers := .empty }

structure EntryPoint where
  stage : Stage
  body : Recorder Unit
  /-- The outcome of the recording, once it was needed. -/
  recorded : Option (Except Error Block)
  /-- The outcome of the analysis, once it was needed. -/
  analyzed : Option (Except Error Usage)

namespace EntryPoint

def new (stage : Stage) (body : Recorder Unit) : EntryPoint :=
  ⟨stage, body, none, none⟩

/-- How many times the body was run. -/
def runs (e : EntryPoint) : Nat :=
  if e.recorded.isSome then 1 else 0

/-- The outcome of running the body. -/
def record (e : EntryPoint) : Except Error Block :=
  return (← e.body.record).2

end EntryPoint

structure Program extends Declarations where
  entries : Table EntryPoint

def Program.empty : Program :=
  { Declarations.empty with entries := .empty }

end Shading
