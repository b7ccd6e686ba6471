/-!
# Shading types

A shading type is a primitive type (a scalar, a vector or a matrix) together with a list of array
dimensions, the outermost first.  Vectors are made of one of four scalar kinds; matrices are made of
floats and are stored column by column.
-/

namespace Shading

/-- What the components of a primitive type are made of. -/
inductive Scalar where
  | int
  | uint
  | float
  | bool
  deriving DecidableEq, Repr

/-- Number of components of a scalar or a vector. -/
inductive Dim where
  | one
  | two
  | three
  | four
  deriving DecidableEq, Repr

namespace Dim

def size : Dim → Nat
  | one => 1
  | two => 2
  | three => 3
  | four => 4

def ofSize? : Nat → Option Dim
  | 1 => some one
  | 2 => some two
  | 3 => some three
  | 4 => some four
  | _ => none

@[simp] theorem ofSize?_size (d : Dim) : ofSize? d.size = some d := by
  cases d <;> rfl

end Dim

/-- Shape of a matrix, columns first: `four3` has four columns of three rows each. -/
inductive MatrixShape where
  | two2
  | three3
  | four4
  | four3
  deriving DecidableEq, Repr

namespace MatrixShape

def columns : MatrixShape → Nat
  | two2 => 2
  | three3 => 3
  | four4 => 4
  | four3 => 4

def rows : MatrixShape → Nat
  | two2 => 2
  | three3 => 3
  | four4 => 4
  | four3 => 3

end MatrixShape

/-- A type without array dimensions.  A scalar is a vector with one component. -/
inductive Prim where
  | vector (scalar : Scalar) (dim : Dim)
  | matrix (shape : MatrixShape)
  deriving DecidableEq, Repr

namespace Prim

def components : Prim → Nat
  | vector _ d => d.size
  | matrix m => m.columns * m.rows

/-- The scalar kind the components are made of. -/
def kind : Prim → Scalar
  | vector s _ => s
  | matrix _ => .float

/-- The scalar type the components are made of. -/
def scalar (p : Prim) : Prim :=
  vector p.kind .one

def isScalar : Prim → Bool
  | vector _ .one => true
  | _ => false

end Prim

/-- A primitive type and its array dimensions, the outermost first. -/
structure Ty where
  prim : Prim
  dims : List Nat
  deriving DecidableEq, Repr

namespace Ty

def ofPrim (p : Prim) : Ty :=
  ⟨p, []⟩

def float : Ty := ofPrim (.vector .float .one)

def int : Ty := ofPrim (.vector .int .one)

def bool : Ty := ofPrim (.vector .bool .one)

/-- The array of `n` values of type `t`. -/
def array (n : Nat) (t : Ty) : Ty :=
  ⟨t.prim, n :: t.dims⟩

/-- Type of the elements of an array type. -/
def element? (t : Ty) : Option Ty :=
  match t.dims with
  | [] => none
  | _ :: rest => some ⟨t.prim, rest⟩

@[simp] theorem element?_array (n : Nat) (t : Ty) : (array n t).element? = some t := rfl

/-- Integers cannot be interpolated between vertices. -/
def isIntegral (t : Ty) : Bool :=
  match t.prim with
  | .vector .int _ => true
  | .vector .uint _ => true
  | _ => false

end Ty

end Shading
