/-!
# Names of uniform blocks

In GLSL ES 3.00 a struct uniform is a block, and blocks and structs share a name space.  A block has
the name of its struct, unless that is taken or two used blocks have the same struct; then the name
of the instance is attached.  Underscores are added until the name is free.
-/

namespace Shading.Glsl

/-- A name with `n` underscores at its end. -/
def padded (name : String) (n : Nat) : String :=
  name ++ String.ofList (List.replicate n '_')

/-- The name with as few underscores at its end as it takes to be none of the taken ones. -/
def firstFree (taken : List String) (name : String) : String :=
  (((List.range (taken.length + 1)).map (padded name)).find? (· ∉ taken)).getD name

/-- The name of a block, where `structs` are the structs of all used blocks. -/
def blockName (structs taken : List String) (instanceName struct : String) : String :=
  let name := if 1 < structs.count struct ∨ struct ∈ taken then struct ++ "_" ++ instanceName
    else struct
  firstFree taken name

/-- Name blocks one after the other.  A block is given as its instance and its struct. -/
def nameBlocks (structs taken : List String) : List (String × String) → List (String × String)
  | [] => []
  | (instanceName, struct) :: rest =>
    let name := blockName structs taken instanceName struct
    (instanceName, name) :: nameBlocks structs (taken ++ [name]) rest

/-- The names of the used blocks, by instance, next to structs that are declared. -/
def blockNames (declared : List String) (blocks : List (String × String)) :
    List (String × String) :=
  nameBlocks (blocks.map Prod.snd) declared blocks

end Shading.Glsl
