import Shading.Struct
import Shading.Term

/-!
# Unchecked access to struct values

When the definition of a struct is known in advance, all its fields can be laid out at once.  An
accessor is this layout of one struct value: following it along existing fields never fails, and no
definition is consulted on the way.
-/

namespace Shading

inductive Accessor where
  | value (term : Term)
  | struct (fields : List (String × Accessor))
  /-- An array of structs, which needs a position. -/
  | elements (select : Term → Accessor)

namespace Accessor

mutual

/-- The accessor of `object`, a value of a given struct type. -/
def ofStruct (object : Expr) : StructDef → Accessor
  | .mk _ fields => .struct (ofFields object fields)

def ofFields (object : Expr) : List Field → List (String × Accessor)
  | [] => []
  | f :: fields => (f.name, ofField object f) :: ofFields object fields

def ofField (object : Expr) : Field → Accessor
  | .value name type => .value ⟨type, .field object name⟩
  | .nested name s none => ofStruct (.field object name) s
  | .nested name s (some _) =>
    .elements fun position ↦ ofStruct (.index (.field object name) position.expr) s

end

/-- The accessor of a struct uniform. -/
def ofUniform (name : String) (s : StructDef) : Accessor :=
  ofStruct (.var (.uniformStruct name)) s

def field? : Accessor → String → Option Accessor
  | .struct fields, name => fields.lookup name
  | _, _ => none

def at? : Accessor → Term → Option Accessor
  | .elements select, position => some (select position)
  | _, _ => none

end Accessor

end Shading
