import Shading.Collection.OrderedSet
import Shading.Handle

/-!
# Usage

What an entry point uses, directly or through the helpers it calls and the constants it reads.  All
sets are in the order of first encounter.
-/

namespace Shading

structure Usage where
  uniforms : OrderedSet String
  uniformStructs : OrderedSet String
  attributes : OrderedSet String
  varyings : OrderedSet String
  samplers : OrderedSet String
  outputs : OrderedSet String
  builtins : OrderedSet Builtin
  constants : OrderedSet Nat
  /-- Called helpers, callees before callers. -/
  helpers : OrderedSet String
  /-- Uniforms, struct uniforms and samplers, mixed, in the order in which bindings are handed out.
  -/
  bindings : OrderedSet Handle
  writtenBuiltins : OrderedSet Builtin
  writtenVaryings : OrderedSet String
  writtenOutputs : OrderedSet String
  returnsValue : Bool
  returnsVoid : Bool
  discards : Bool

namespace Usage

def empty : Usage :=
  { uniforms := .empty, uniformStructs := .empty, attributes := .empty, varyings := .empty
    samplers := .empty, outputs := .empty, builtins := .empty, constants := .empty
    helpers := .empty, bindings := .empty, writtenBuiltins := .empty, writtenVaryings := .empty
    writtenOutputs := .empty, returnsValue := false, returnsVoid := false, discards := false }

def addUniform (u : Usage) (name : String) : Usage :=
  { u with uniforms := u.uniforms.insert name, bindings := u.bindings.insert (.uniform name) }

def addUniformStruct (u : Usage) (name : String) : Usage :=
  { u with
    uniformStructs := u.uniformStructs.insert name
    bindings := u.bindings.insert (.uniformStruct name) }

def addSampler (u : Usage) (name : String) : Usage :=
  { u with samplers := u.samplers.insert name, bindings := u.bindings.insert (.sampler name) }

/-- Note an assignment to a handle. -/
def addWrite (u : Usage) : Handle → Usage
  | .builtin b => { u with writtenBuiltins := u.writtenBuiltins.insert b }
  | .varying n => { u with writtenVaryings := u.writtenVaryings.insert n }
  | .output n => { u with writtenOutputs := u.writtenOutputs.insert n }
  | _ => u

/-- Note that the entry point itself returns, with a value or without. -/
def addReturn (u : Usage) (withValue : Bool) : Usage :=
  if withValue then { u with returnsValue := true } else { u with returnsVoid := true }

/-- Varyings that a fragment entry point uses and its vertex entry point never writes. -/
def unwritten (vertex fragment : Usage) : List String :=
  fragment.varyings.toList.filter (· ∉ vertex.writtenVaryings)

end Usage

end Shading
