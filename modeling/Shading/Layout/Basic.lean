/-!
# Layouts

The locations and bindings of an entry point, or of a vertex and a fragment entry point together.
-/

namespace Shading

structure BindingPoint where
  group : Nat
  index : Nat
  deriving DecidableEq, Repr

/-- Bindings of a sampler: its texture and, for filtered kinds, its sampler object. -/
structure SamplerSlots where
  group : Nat
  texture : Nat
  object : Option Nat
  deriving DecidableEq, Repr

structure Layout where
  attributes : List (String × Nat)
  varyings : List (String × Nat)
  outputs : List (String × Nat)
  uniforms : List (String × BindingPoint)
  samplers : List (String × SamplerSlots)
  deriving DecidableEq, Repr

namespace Layout

def output? (l : Layout) (name : String) : Option Nat :=
  l.outputs.lookup name

def varying? (l : Layout) (name : String) : Option Nat :=
  l.varyings.lookup name

def attribute? (l : Layout) (name : String) : Option Nat :=
  l.attributes.lookup name

def uniform? (l : Layout) (name : String) : Option BindingPoint :=
  l.uniforms.lookup name

def sampler? (l : Layout) (name : String) : Option SamplerSlots :=
  l.samplers.lookup name

/-- Put a name with its location in front of the first one that has a larger location. -/
def insertByLocation (item : String × Nat) : List (String × Nat) → List (String × Nat)
  | [] => [item]
  | other :: rest =>
    if item.2 < other.2 then item :: other :: rest else other :: insertByLocation item rest

/-- Sort names by location; names with the same location keep their order. -/
def sortByLocation (items : List (String × Nat)) : List (String × Nat) :=
  items.foldl (fun sorted item ↦ insertByLocation item sorted) []

end Layout

end Shading
