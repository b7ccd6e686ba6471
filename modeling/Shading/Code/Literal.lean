import Shading.Code.Expr
import Shading.Number.Text

/-!
# Literals in shader code

A negative component is a negation of its absolute value.  A vector whose components are all equal
is written with one of them; a matrix never is, since a matrix made of one number is a multiple of
the identity.
-/

namespace Shading.Code

/-- A number with a sign in front if it is negative. -/
def signed (negative : Bool) (text : String) : Expr :=
  if negative then .unary .neg (.word text) else .word text

def intComponent (x : Int32) : Expr :=
  signed (x.toInt < 0) (toString x.toInt.natAbs)

def uintComponent (x : UInt32) : Expr :=
  .word (toString x.toNat ++ "u")

def floatComponent (x : Binary32) : Expr :=
  signed x.isNegative x.text

def boolComponent (x : Bool) : Expr :=
  .word (if x then "true" else "false")

/-- One component for all when they are equal. -/
def collapse {α : Type} (same : α → α → Bool) : List α → List α
  | [] => []
  | a :: rest => if rest.all (same · a) then [a] else a :: rest

/-- The components that are written. -/
def components : Literal → List Expr
  | .int _ v => (collapse (· == ·) v.toList).map intComponent
  | .uint _ v => (collapse (· == ·) v.toList).map uintComponent
  | .float _ v => (collapse Binary32.sameValue v.toList).map floatComponent
  | .bool _ v => (collapse (· == ·) v.toList).map boolComponent
  | .matrix _ columns => (columns.toList.flatMap Vector.toList).map floatComponent

/-- A literal, where `spell` gives the names of constructors. -/
def literal (spell : Prim → String) (v : Literal) : Expr :=
  match v.prim.isScalar, components v with
  | true, [c] => c
  | _, cs => .call (spell v.prim) cs

end Shading.Code
