import Shading.Term

/-!
# Access to struct uniforms

A struct value together with its definition.  Access to a field is checked against the definition;
the first field of the given name counts.
-/

namespace Shading

structure StructRef where
  struct : StructDef
  object : Expr

namespace StructRef

/-- The value of a struct uniform. -/
def ofUniform (name : String) (struct : StructDef) : StructRef :=
  ⟨struct, .var (.uniformStruct name)⟩

def lookup (r : StructRef) (name : String) : Except Error Field :=
  match r.struct.field? name with
  | some f => .ok f
  | none => .error (.noField r.struct.name name)

/-- A field that holds a value of a given type. -/
def field (r : StructRef) (name : String) (type : Ty) : Except Error Term := do
  match ← r.lookup name with
  | .value n t =>
    if t = type then return ⟨type, .field r.object name⟩
    else throw (.fieldType r.struct.name (.value n t) type)
  | f => throw (.fieldType r.struct.name f type)

/-- A nested struct. -/
def nested (r : StructRef) (name : String) : Except Error StructRef := do
  match ← r.lookup name with
  | .nested _ s none => return ⟨s, .field r.object name⟩
  | _ => throw (.notStruct r.struct.name name)

/-- An element of an array of nested structs. -/
def nestedAt (r : StructRef) (name : String) (position : Term) : Except Error StructRef := do
  match ← r.lookup name with
  | .nested _ s (some _) => return ⟨s, .index (.field r.object name) position.expr⟩
  | _ => throw (.notStructArray r.struct.name name)

end StructRef

end Shading
