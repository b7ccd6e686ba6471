import Shading.Stage

/-!
# Handles

A handle names something that an expression can read or a statement can write.  Constants, function
arguments and local variables are numbered; declared resources have the names that the author gave
them, each kind in a name space of its own.
-/

namespace Shading

inductive Handle where
  | builtin (value : Builtin)
  | constant (index : Nat)
  | argument (index : Nat)
  /-- The `index`-th variable of a scope that is nested `depth` scopes deep. -/
  | localVar (depth index : Nat)
  | uniform (name : String)
  | uniformStruct (name : String)
  | vertexAttribute (name : String)
  | varying (name : String)
  | output (name : String)
  | sampler (name : String)
  deriving DecidableEq, Repr

namespace Handle

/-- The name under which code mentions the handle when nothing about its stage matters. -/
def text : Handle → String
  | builtin b => b.qualified
  | constant i => "glob_" ++ toString i
  | argument i => "arg_" ++ toString i
  | localVar d i => "var_" ++ toString d ++ "_" ++ toString i
  | uniform n => n
  | uniformStruct n => n
  | vertexAttribute n => n
  | varying n => n
  | output n => n
  | sampler n => n

end Handle

end Shading
