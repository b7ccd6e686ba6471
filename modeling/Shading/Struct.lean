import Shading.Type

/-!
# Struct definitions

A struct definition is a named list of fields.  A field holds a value, another struct, or an array
of another struct.
-/

namespace Shading

mutual

inductive Field where
  | value (name : String) (type : Ty)
  /-- A nested struct, or an array of nested structs when there is a length. -/
  | nested (name : String) (struct : StructDef) (length : Option Nat)

inductive StructDef where
  | mk (name : String) (fields : List Field)

end

namespace Field

def name : Field → String
  | value n _ => n
  | nested n _ _ => n

end Field

namespace StructDef

def name : StructDef → String
  | mk n _ => n

def fields : StructDef → List Field
  | mk _ fs => fs

/-- The first field of a given name. -/
def field? (s : StructDef) (name : String) : Option Field :=
  s.fields.find? (·.name == name)

end StructDef

/-! ### Equality -/

mutual

def Field.same : Field → Field → Bool
  | .value n t, .value n' t' => n == n' && t == t'
  | .nested n s l, .nested n' s' l' => n == n' && l == l' && StructDef.same s s'
  | _, _ => false

def Field.sameAll : List Field → List Field → Bool
  | [], [] => true
  | f :: fs, g :: gs => Field.same f g && Field.sameAll fs gs
  | _, _ => false

def StructDef.same : StructDef → StructDef → Bool
  | .mk n fs, .mk n' fs' => n == n' && Field.sameAll fs fs'

end

mutual

theorem Field.same_iff : ∀ f g : Field, f.same g = true ↔ f = g
  | .value n t, .value n' t' => by simp [Field.same]
  | .nested n s l, .nested n' s' l' => by
    simp only [Field.same, Bool.and_eq_true, beq_iff_eq, StructDef.same_iff s s',
      Field.nested.injEq]
    exact ⟨fun ⟨⟨hn, hl⟩, hs⟩ ↦ ⟨hn, hs, hl⟩, fun ⟨hn, hs, hl⟩ ↦ ⟨⟨hn, hl⟩, hs⟩⟩
  | .value .., .nested .. => by simp [Field.same]
  | .nested .., .value .. => by simp [Field.same]

theorem Field.sameAll_iff : ∀ fs gs : List Field, Field.sameAll fs gs = true ↔ fs = gs
  | [], [] => by simp [Field.sameAll]
  | f :: fs, g :: gs => by
    simp only [Field.sameAll, Bool.and_eq_true, Field.same_iff f g, Field.sameAll_iff fs gs,
      List.cons.injEq]
  | [], _ :: _ => by simp [Field.sameAll]
  | _ :: _, [] => by simp [Field.sameAll]

theorem StructDef.same_iff : ∀ s t : StructDef, s.same t = true ↔ s = t
  | .mk n fs, .mk n' fs' => by
    simp only [StructDef.same, Bool.and_eq_true, beq_iff_eq, Field.sameAll_iff fs fs',
      StructDef.mk.injEq]

end

instance : DecidableEq Field := fun f g ↦ decidable_of_iff _ (Field.same_iff f g)

instance : DecidableEq StructDef := fun s t ↦ decidable_of_iff _ (StructDef.same_iff s t)

/-! ### Dependencies -/

mutual

/-- Add a definition to a list, after all the definitions it nests.  A definition whose name is
already in the list is left out. -/
def StructDef.collect (known : List StructDef) : StructDef → List StructDef
  | .mk n fs =>
    let known := Field.collectAll known fs
    if known.any (·.name == n) then known else known ++ [.mk n fs]

def Field.collectAll (known : List StructDef) : List Field → List StructDef
  | [] => known
  | f :: fs => Field.collectAll (Field.collect known f) fs

def Field.collect (known : List StructDef) : Field → List StructDef
  | .value .. => known
  | .nested _ s _ => StructDef.collect known s

end

/-- The definition and all that it nests at any depth, each name once, dependencies first. -/
def StructDef.withDependencies (s : StructDef) : List StructDef :=
  s.collect []

end Shading
