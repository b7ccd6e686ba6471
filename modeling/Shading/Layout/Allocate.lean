import Shading.Layout.Slots
import Shading.Program.Basic

/-!
# Layout of entry points

Attributes, varyings and fragment outputs each have locations of their own.  Uniforms, struct
uniforms and samplers share the bindings of a group.  The varyings and bindings of a vertex and a
fragment entry point are handed out together, those of the vertex side first, so that both sides
agree.
-/

namespace Shading.Layout

/-- Requests for the locations of the named resources. -/
def locationRequests (requested : String → Option UInt32) (names : List String) :
    List (String × Option Nat) :=
  names.map fun n ↦ (n, (requested n).map UInt32.toNat)

def bindingRequest (name : String) (need : Need) (binding : Binding) : BindingRequest :=
  ⟨name, need, binding.group.toNat, binding.index.map UInt32.toNat⟩

/-- What a uniform, a struct uniform or a sampler asks for. -/
def requestOf (d : Declarations) : Handle → Except Error BindingRequest
  | .uniform n =>
    match d.uniforms.get? n with
    | some u => return bindingRequest n .buffer u.binding
    | none => throw (.undeclared .uniform n)
  | .uniformStruct n =>
    match d.uniformStructs.get? n with
    | some u => return bindingRequest n .buffer u.binding
    | none => throw (.undeclared .structUniform n)
  | .sampler n =>
    match d.samplers.get? n with
    | some s =>
      return bindingRequest n (if s.kind.isPaired then .filteredTexture else .texture) s.binding
    | none => throw (.undeclared .sampler n)
  | h => throw (.noBinding h.text)

def uniformsOf (slots : List (String × Slots)) : List (String × BindingPoint) :=
  slots.filterMap fun (n, s) ↦ match s with
    | .buffer p => some (n, p)
    | .texture _ => none

def samplersOf (slots : List (String × Slots)) : List (String × SamplerSlots) :=
  slots.filterMap fun (n, s) ↦ match s with
    | .buffer _ => none
    | .texture t => some (n, t)

/-- The members of a set over both sides, the vertex side first. -/
def bothSides {α : Type} [DecidableEq α] (vertex fragment : Option Usage)
    (select : Usage → OrderedSet α) : List α :=
  let side (u : Option Usage) : OrderedSet α := (u.map select).getD .empty
  ((side vertex).union (side fragment)).toList

/-- The layout of a vertex entry point, of a fragment entry point, or of both. -/
def allocate (d : Declarations) (vertex fragment : Option Usage) : Except Error Layout := do
  let attributes ← allocateLocations .vertexAttribute <|
    locationRequests (fun n ↦ (d.attributes.get? n).bind (·.location))
      ((vertex.map (·.attributes.toList)).getD [])
  let varyings ← allocateLocations .varying <|
    locationRequests (fun n ↦ (d.varyings.get? n).bind (·.location))
      (bothSides vertex fragment (·.varyings))
  let outputs ← allocateLocations .output <|
    locationRequests (fun n ↦ (d.outputs.get? n).bind (·.location))
      ((fragment.map (·.outputs.toList)).getD [])
  let requests ← (bothSides vertex fragment (·.bindings)).mapM (requestOf d)
  let slots ← allocateBindings requests
  return ⟨attributes, varyings, outputs, uniformsOf slots, samplersOf slots⟩

end Shading.Layout
