import Mathlib.Algebra.BigOperators.Fin
import Mathlib.Data.Matrix.Mul
import Mathlib.Data.Real.Basic
import Shading.Term

/-!
# Products in exact arithmetic

Multiplication is component-wise between vectors, scales a vector by a scalar and is that of linear
algebra where matrices are involved.  A literal minus one on either side makes a negation of the
other side.  The negation is the product unless the other side has another type than the product:
a matrix times a vector is no matrix, and a vector times a scalar is no scalar.
-/

namespace Shading

/-! ### Types of products -/

/-- What the columns of a matrix are. -/
def MatrixShape.column : MatrixShape → Dim
  | two2 => .two
  | three3 => .three
  | four4 => .four
  | four3 => .three

theorem MatrixShape.size_column (m : MatrixShape) : m.column.size = m.rows := by
  cases m <;> rfl

namespace Term

/-- The operand types that multiplication accepts, with the type of the product. -/
inductive Multiplies : Ty → Ty → Ty → Prop
  | components {s : Scalar} {d d' : Dim} (hs : s ≠ .bool) (hd : d' = d ∨ d' = .one) :
      Multiplies (.ofPrim (.vector s d)) (.ofPrim (.vector s d')) (.ofPrim (.vector s d))
  | matrices {m m' : MatrixShape} (h : m'.columns = m'.rows ∧ m'.rows = m.columns) :
      Multiplies (.ofPrim (.matrix m)) (.ofPrim (.matrix m')) (.ofPrim (.matrix m))
  | column {m : MatrixShape} {d : Dim} (h : d.size = m.columns) :
      Multiplies (.ofPrim (.matrix m)) (.ofPrim (.vector .float d))
        (.ofPrim (.vector .float m.column))
  | row {d : Dim} {m : MatrixShape} (h : m.columns = m.rows ∧ d.size = m.rows) :
      Multiplies (.ofPrim (.vector .float d)) (.ofPrim (.matrix m)) (.ofPrim (.vector .float d))

theorem multiplies_of_productType? {a b r : Ty} (h : productType? a b = some r) :
    Multiplies a b r := by
  unfold productType? at h
  split at h
  · next s d s' d' =>
    split at h
    · cases h
    · next hs =>
      split at h
      · next hd =>
        obtain ⟨rfl, hd⟩ := hd
        cases h
        exact .components hs hd
      · cases h
  · split at h
    · next hm =>
      cases h
      exact .matrices hm
    · cases h
  · next m d =>
    split at h
    · next hd =>
      rw [← m.size_column, Dim.ofSize?_size] at h
      cases h
      exact .column hd
    · cases h
  · split at h
    · next hm =>
      cases h
      exact .row hm
    · cases h
  · cases h

/-- Negation is defined on signed numbers and on matrices. -/
def isSigned : Ty → Bool
  | ⟨.vector .int _, []⟩ | ⟨.vector .float _, []⟩ | ⟨.matrix _, []⟩ => true
  | _ => false

/-- The types of literals that are minus one. -/
inductive SignedVector : Ty → Prop
  | int (d : Dim) : SignedVector (.ofPrim (.vector .int d))
  | float (d : Dim) : SignedVector (.ofPrim (.vector .float d))

/-- A matrix times a vector is no matrix; all else has the type of the product. -/
theorem Multiplies.signed_right {a b r : Ty} (h : Multiplies a b r) (hb : SignedVector b) :
    isSigned a = true ∧ (a = r ↔ ¬ ∃ m, a = .ofPrim (.matrix m)) := by
  cases h with
  | components => cases hb <;> simp [isSigned, Ty.ofPrim]
  | matrices => cases hb
  | column => simp [isSigned, Ty.ofPrim]
  | row => cases hb

theorem Multiplies.signed_left {a b r : Ty} (h : Multiplies a b r) (ha : SignedVector a) :
    isSigned b = true ∧ r = a := by
  cases h with
  | components => cases ha <;> exact ⟨rfl, rfl⟩
  | matrices => cases ha
  | column => cases ha
  | row => exact ⟨rfl, rfl⟩

end Term

namespace Exact

open Term (Multiplies SignedVector isSigned)

noncomputable section

/-! ### Values -/

/-- A value of a primitive type, without rounding or overflow. -/
inductive Value where
  | int (dim : Dim) (v : Fin dim.size → Int)
  | uint (dim : Dim) (v : Fin dim.size → Nat)
  | float (dim : Dim) (v : Fin dim.size → ℝ)
  | bool (dim : Dim) (v : Fin dim.size → Bool)
  | matrix (shape : MatrixShape) (a : Matrix (Fin shape.rows) (Fin shape.columns) ℝ)

namespace Value

def type : Value → Ty
  | int d _ => .ofPrim (.vector .int d)
  | uint d _ => .ofPrim (.vector .uint d)
  | float d _ => .ofPrim (.vector .float d)
  | bool d _ => .ofPrim (.vector .bool d)
  | matrix m _ => .ofPrim (.matrix m)

def neg : Value → Option Value
  | int d v => some (int d (-v))
  | float d v => some (float d (-v))
  | matrix m a => some (matrix m (-a))
  | _ => none

/-- Every component is minus one. -/
def IsMinusOne : Value → Prop
  | int _ v => ∀ i, v i = -1
  | float _ v => ∀ i, v i = -1
  | _ => False

theorem eq_float_of_type {x : Value} {d : Dim} (h : x.type = .ofPrim (.vector .float d)) :
    ∃ v, x = float d v := by
  cases x <;> cases h
  exact ⟨_, rfl⟩

theorem eq_matrix_of_type {x : Value} {m : MatrixShape} (h : x.type = .ofPrim (.matrix m)) :
    ∃ a, x = matrix m a := by
  cases x <;> cases h
  exact ⟨_, rfl⟩

theorem exists_neg {x : Value} (h : isSigned x.type = true) : ∃ w, x.neg = some w := by
  cases x with
  | uint => cases h
  | bool => cases h
  | _ => exact ⟨_, rfl⟩

theorem type_neg {x w : Value} (h : x.neg = some w) : w.type = x.type := by
  cases x <;> cases h <;> rfl

end Value

/-- The components of a vector times those of another one, or times a scalar. -/
def scaled? {R : Type} [Mul R] {d d' : Dim} (v : Fin d.size → R) (w : Fin d'.size → R) :
    Option (Fin d.size → R) :=
  if h : d' = d then some fun i ↦ v i * w (Fin.cast (congrArg Dim.size h.symm) i)
  else if h : d' = .one then some fun i ↦ v i * w (Fin.cast (congrArg Dim.size h.symm) (0 : Fin 1))
  else none

def product : Value → Value → Option Value
  | .int d v, .int _ w => (scaled? v w).map (.int d)
  | .uint d v, .uint _ w => (scaled? v w).map (.uint d)
  | .float d v, .float _ w => (scaled? v w).map (.float d)
  | .matrix m a, .matrix m' b =>
    if h : m'.columns = m'.rows ∧ m'.rows = m.columns then
      some (.matrix m (a * b.submatrix (Fin.cast h.2.symm) (Fin.cast (h.1.trans h.2).symm)))
    else none
  | .matrix m a, .float d v =>
    if h : d.size = m.columns then
      some (.float m.column fun i ↦ a.mulVec (v ∘ Fin.cast h.symm) (Fin.cast m.size_column i))
    else none
  | .float d v, .matrix m a =>
    if h : m.columns = m.rows ∧ d.size = m.rows then
      some (.float d fun i ↦
        Matrix.vecMul (v ∘ Fin.cast h.2.symm) a (Fin.cast (h.2.trans h.1.symm) i))
    else none
  | _, _ => none

section

variable {R : Type} {d d' : Dim} {v : Fin d.size → R} {w : Fin d'.size → R} {u : Fin d.size → R}

theorem exists_scaled? [Mul R] (v : Fin d.size → R) (w : Fin d'.size → R)
    (h : d' = d ∨ d' = .one) : ∃ u, scaled? v w = some u := by
  unfold scaled?
  split
  · exact ⟨_, rfl⟩
  · next hne =>
    rw [dif_pos (h.resolve_left hne)]
    exact ⟨_, rfl⟩

theorem eq_neg_of_scaled? [Ring R] (hw : ∀ i, w i = -1) (h : scaled? v w = some u) : u = -v := by
  unfold scaled? at h
  split at h
  · cases h
    funext i
    rw [hw, mul_neg_one, Pi.neg_apply]
  · split at h
    · cases h
      funext i
      rw [hw, mul_neg_one, Pi.neg_apply]
    · cases h

theorem scaled?_of_minusOne [Ring R] (hv : ∀ i, v i = -1) (w : Fin d.size → R) :
    scaled? v w = some (-w) := by
  have hself : scaled? v w = some fun i ↦ v i * w i := dif_pos rfl
  rw [hself]
  congr 1
  funext i
  rw [hv, neg_one_mul, Pi.neg_apply]

end

/-- Values of types that multiplication accepts have a product of its type. -/
theorem exists_product {x y : Value} {r : Ty} (h : Multiplies x.type y.type r) :
    ∃ z, product x y = some z ∧ z.type = r := by
  generalize hx : x.type = a at h
  generalize hy : y.type = b at h
  cases h with
  | components hs hd =>
      cases x with
      | int d v =>
          cases y <;> cases hy <;> cases hx
          obtain ⟨u, hu⟩ := exists_scaled? v _ hd
          exact ⟨.int _ u, congrArg (Option.map (Value.int _)) hu, rfl⟩
      | uint d v =>
          cases y <;> cases hy <;> cases hx
          obtain ⟨u, hu⟩ := exists_scaled? v _ hd
          exact ⟨.uint _ u, congrArg (Option.map (Value.uint _)) hu, rfl⟩
      | float d v =>
          cases y <;> cases hy <;> cases hx
          obtain ⟨u, hu⟩ := exists_scaled? v _ hd
          exact ⟨.float _ u, congrArg (Option.map (Value.float _)) hu, rfl⟩
      | bool =>
          cases hx
          exact (hs rfl).elim
      | matrix => cases hx
  | matrices hm =>
      obtain ⟨a, rfl⟩ := Value.eq_matrix_of_type hx
      obtain ⟨b, rfl⟩ := Value.eq_matrix_of_type hy
      exact ⟨_, dif_pos hm, rfl⟩
  | column hd =>
      obtain ⟨a, rfl⟩ := Value.eq_matrix_of_type hx
      obtain ⟨v, rfl⟩ := Value.eq_float_of_type hy
      exact ⟨_, dif_pos hd, rfl⟩
  | row hm =>
      obtain ⟨v, rfl⟩ := Value.eq_float_of_type hx
      obtain ⟨a, rfl⟩ := Value.eq_matrix_of_type hy
      exact ⟨_, dif_pos hm, rfl⟩

/-- A factor of minus one on the right negates all but matrices. -/
theorem neg_eq_product_right {x y z : Value} (hy : y.IsMinusOne) (hz : product x y = some z)
    (hx : ∀ m, x.type ≠ .ofPrim (.matrix m)) : x.neg = some z := by
  cases y with
  | int d' w =>
      cases x with
      | int d v =>
          obtain ⟨u, hu, rfl⟩ := Option.map_eq_some_iff.mp hz
          rw [eq_neg_of_scaled? hy hu]
          rfl
      | _ => cases hz
  | float d' w =>
      cases x with
      | float d v =>
          obtain ⟨u, hu, rfl⟩ := Option.map_eq_some_iff.mp hz
          rw [eq_neg_of_scaled? hy hu]
          rfl
      | matrix m a => exact (hx m rfl).elim
      | _ => cases hz
  | _ => exact hy.elim

/-- A factor of minus one on the left negates what has its type. -/
theorem neg_eq_product_left {x y z : Value} (hx : x.IsMinusOne) (hz : product x y = some z)
    (htype : y.type = x.type) : y.neg = some z := by
  cases x with
  | int d v =>
      cases y <;> cases htype
      rw [product, scaled?_of_minusOne hx] at hz
      exact hz
  | float d v =>
      obtain ⟨w, rfl⟩ := Value.eq_float_of_type htype
      rw [product, scaled?_of_minusOne hx] at hz
      exact hz
  | _ => exact hx.elim

/-! ### Literals -/

/-- The value of a finite number. -/
def toReal (x : Binary32) : ℝ :=
  (if x.signBit then -1 else 1) * x.significand * 2 ^ x.exponent

/-- The value of a literal whose components are all finite. -/
def ofLiteral : Literal → Option Value
  | .int d v => some (.int d fun i ↦ (v.get i).toInt)
  | .uint d v => some (.uint d fun i ↦ (v.get i).toNat)
  | .float d v =>
    if ∀ i, (v.get i).isFinite then some (.float d fun i ↦ toReal (v.get i)) else none
  | .bool d v => some (.bool d v.get)
  | .matrix m columns =>
    if ∀ i j, ((columns.get j).get i).isFinite then
      some (.matrix m (.of fun i j ↦ toReal ((columns.get j).get i)))
    else none

theorem type_ofLiteral {l : Literal} {x : Value} (h : ofLiteral l = some x) :
    x.type = .ofPrim l.prim := by
  cases l with
  | float d v =>
      obtain ⟨-, h⟩ := Option.ite_none_right_eq_some.mp h
      cases h
      rfl
  | matrix m columns =>
      obtain ⟨-, h⟩ := Option.ite_none_right_eq_some.mp h
      cases h
      rfl
  | _ =>
      cases h
      rfl

theorem toReal_minusOne : toReal .minusOne = -1 := by
  have hsign : Binary32.minusOne.signBit = true := by decide
  have hsignificand : Binary32.minusOne.significand = 2 ^ 23 := by decide
  have hexponent : Binary32.minusOne.exponent = -23 := by decide
  rw [toReal, hsign, hsignificand, hexponent]
  norm_num

theorem eq_minusOne_of_sameValue {x : Binary32} (h : x.sameValue .minusOne = true) :
    x = .minusOne := by
  have hzero : Binary32.minusOne.isZero = false := by decide
  rw [Binary32.sameValue, hzero, Bool.and_false, Bool.or_false, Bool.and_eq_true] at h
  have hbits : x.bits = Binary32.minusOne.bits := eq_of_beq h.2
  cases x
  exact congrArg Binary32.mk hbits

theorem of_all {α : Type} {n : Nat} {p : α → Bool} {v : Vector α n} (h : v.all p = true)
    (i : Fin n) : p (v.get i) = true :=
  Vector.all_eq_true.mp h i i.isLt

/-- A literal minus one has the value minus one. -/
theorem isMinusOne_ofLiteral {l : Literal} (h : l.isMinusOne = true) :
    ∃ x, ofLiteral l = some x ∧ x.IsMinusOne := by
  cases l with
  | int d v =>
      refine ⟨_, rfl, fun i ↦ ?_⟩
      exact congrArg Int32.toInt (eq_of_beq (of_all h i))
  | float d v =>
      have hone : ∀ i, v.get i = .minusOne := fun i ↦ eq_minusOne_of_sameValue (of_all h i)
      have hfinite : ∀ i, (v.get i).isFinite = true := fun i ↦ by
        rw [hone i]
        decide
      refine ⟨_, if_pos hfinite, fun i ↦ ?_⟩
      exact (congrArg toReal (hone i)).trans toReal_minusOne
  | _ => cases h

/-! ### Expressions -/

/-- The value of an expression.  Literals, negations and products are computed; all else, variables
above all, has the value that the valuation gives it. -/
def value (σ : Expr → Option Value) : Expr → Option Value
  | .lit l => ofLiteral l
  | .unary .neg a => (value σ a).bind Value.neg
  | .binary .mul a b => (value σ a).bind fun x ↦ (value σ b).bind (product x)
  | e => σ e

/-- The type of an expression, with the types of all but literals, negations and products given. -/
def typeOf (Γ : Expr → Option Ty) : Expr → Option Ty
  | .lit l => some (.ofPrim l.prim)
  | .unary .neg a => (typeOf Γ a).filter isSigned
  | .binary .mul a b => (typeOf Γ a).bind fun t ↦ (typeOf Γ b).bind (Term.productType? t)
  | e => Γ e

/-- A term has a value, and the value has the type of the term. -/
def Denotes (σ : Expr → Option Value) (a : Term) (x : Value) : Prop :=
  value σ a.expr = some x ∧ x.type = a.type

/-- The side that is negated has not the type of the product: a matrix is multiplied by a vector
literal, or a vector literal by a matrix or by a scalar. -/
def Mismatched (a b : Term) : Prop :=
  if b.expr.isMinusOne then ∃ m, a.type = .ofPrim (.matrix m)
  else a.expr.isMinusOne = true ∧ b.type ≠ a.type

theorem exists_lit_of_isMinusOne {e : Expr} (h : e.isMinusOne = true) :
    ∃ l, e = .lit l ∧ l.isMinusOne = true ∧ SignedVector (.ofPrim l.prim) := by
  cases e with
  | lit l =>
      refine ⟨l, rfl, h, ?_⟩
      cases l with
      | int d v => exact .int d
      | float d v => exact .float d
      | _ => cases h
  | _ => cases h

theorem Denotes.minusOne {σ : Expr → Option Value} {a : Term} {x : Value} (hx : Denotes σ a x)
    (h : a.expr.isMinusOne = true) : x.IsMinusOne ∧ SignedVector a.type := by
  obtain ⟨l, hl, hone, hsigned⟩ := exists_lit_of_isMinusOne h
  obtain ⟨x', hx', hminus⟩ := isMinusOne_ofLiteral hone
  obtain ⟨hvalue, htype⟩ := hx
  rw [hl, value, hx'] at hvalue
  cases hvalue
  rw [← htype, type_ofLiteral hx']
  exact ⟨hminus, hsigned⟩

section

variable {a b : Term} {r : Ty}

/-- The node of a product has the type of the product unless it negates the wrong type. -/
theorem typeOf_mul_iff (hr : Term.productType? a.type b.type = some r) {Γ : Expr → Option Ty}
    (ha : typeOf Γ a.expr = some a.type) (hb : typeOf Γ b.expr = some b.type) :
    typeOf Γ (Expr.mul a.expr b.expr) = some r ↔ ¬ Mismatched a b := by
  have hmultiplies := Term.multiplies_of_productType? hr
  have hsigned : ∀ {e t}, e.isMinusOne = true → typeOf Γ e = some t → SignedVector t := by
    intro e t he ht
    obtain ⟨l, rfl, -, hl⟩ := exists_lit_of_isMinusOne he
    cases ht
    exact hl
  rw [Expr.mul, Mismatched]
  split
  · next hone =>
    obtain ⟨hneg, hsame⟩ := hmultiplies.signed_right (hsigned hone hb)
    rw [typeOf, ha, Option.filter_some, if_pos hneg, Option.some_inj, hsame]
  · split
    · next hone =>
      obtain ⟨hneg, rfl⟩ := hmultiplies.signed_left (hsigned hone ha)
      rw [typeOf, hb, Option.filter_some, if_pos hneg, Option.some_inj]
      simp [hone]
    · next hnone =>
      rw [typeOf, ha, hb, Option.bind_some, Option.bind_some, hr]
      simp [hnone]

/-- The node of a product has the value of the product unless it negates the wrong type. -/
theorem exists_value_mul (h : Multiplies a.type b.type r) {σ : Expr → Option Value} {x y z : Value}
    (hx : Denotes σ a x) (hy : Denotes σ b y) (hz : product x y = some z) (hztype : z.type = r) :
    ∃ w, value σ (Expr.mul a.expr b.expr) = some w ∧ (w.type = r ↔ ¬ Mismatched a b) ∧
      (¬ Mismatched a b → w = z) := by
  rw [Expr.mul, Mismatched]
  split
  · -- The right side is minus one: the left side is negated, which is wrong for matrices only.
    next hone =>
    obtain ⟨hminus, hvector⟩ := hy.minusOne hone
    obtain ⟨hneg, hsame⟩ := h.signed_right hvector
    rw [← hx.2] at hneg hsame ⊢
    obtain ⟨w, hw⟩ := Value.exists_neg hneg
    refine ⟨w, ?_, ?_, ?_⟩
    · rw [value, hx.1, Option.bind_some, hw]
    · rw [Value.type_neg hw, hsame]
    · intro hmatrix
      have heq := neg_eq_product_right hminus hz fun m hm ↦ hmatrix ⟨m, hm⟩
      exact Option.some.inj (hw.symm.trans heq)
  · split
    · -- The left side is minus one, and the product has its type, so the right side must have it.
      next hone =>
      obtain ⟨hminus, hvector⟩ := hx.minusOne hone
      obtain ⟨hneg, rfl⟩ := h.signed_left hvector
      rw [← hy.2] at hneg ⊢
      obtain ⟨w, hw⟩ := Value.exists_neg hneg
      have hmatch : ¬ (a.expr.isMinusOne = true ∧ y.type ≠ a.type) ↔ y.type = a.type := by
        simp [hone]
      rw [hmatch]
      refine ⟨w, ?_, ?_, ?_⟩
      · rw [value, hy.1, Option.bind_some, hw]
      · rw [Value.type_neg hw]
      · intro htype
        have heq := neg_eq_product_left hminus hz (htype.trans hx.2.symm)
        exact Option.some.inj (hw.symm.trans heq)
    · next hnone =>
      refine ⟨z, ?_, ?_, fun _ ↦ rfl⟩
      · rw [value, hx.1, hy.1, Option.bind_some, Option.bind_some, hz]
      · simp [hztype, hnone]

end

/-- A product has the type of the operator and the value of the product in exact arithmetic, unless
a literal minus one makes it the negation of a side of another type. -/
theorem mul_denotes_product (a b : Term) (r : Ty)
    (hr : Term.productType? a.type b.type = some r) :
    (Term.mul a b).type = r ∧
    (Term.mul a b).expr = (if b.expr.isMinusOne then .unary .neg a.expr
      else if a.expr.isMinusOne then .unary .neg b.expr else .binary .mul a.expr b.expr) ∧
    (∀ Γ, typeOf Γ a.expr = some a.type → typeOf Γ b.expr = some b.type →
      (typeOf Γ (Term.mul a b).expr = some r ↔ ¬ Mismatched a b)) ∧
    ∀ σ x y, Denotes σ a x → Denotes σ b y →
      ∃ w z, value σ (Term.mul a b).expr = some w ∧ product x y = some z ∧ z.type = r ∧
        (w.type = r ↔ ¬ Mismatched a b) ∧ (w = z ↔ ¬ Mismatched a b) := by
  have hmultiplies := Term.multiplies_of_productType? hr
  refine ⟨?_, rfl, fun Γ ↦ typeOf_mul_iff hr, ?_⟩
  · rw [Term.mul, hr, Option.getD_some]
  · intro σ x y hx hy
    obtain ⟨z, hz, hztype⟩ : ∃ z, product x y = some z ∧ z.type = r :=
      exists_product (by rwa [hx.2, hy.2])
    obtain ⟨w, hw, htype, heq⟩ := exists_value_mul hmultiplies hx hy hz hztype
    refine ⟨w, z, hw, hz, hztype, htype, ?_, heq⟩
    rintro rfl
    exact htype.mp hztype

/-- A literal of minus ones. -/
def minusOnes (d : Dim) : Term :=
  .lit (.float d (Vector.replicate d.size .minusOne))

theorem isMinusOne_minusOnes (d : Dim) : (minusOnes d).expr.isMinusOne = true := by
  apply Vector.all_eq_true.mpr
  intro i hi
  rw [Vector.getElem_replicate]
  decide

theorem denotes_minusOnes (σ : Expr → Option Value) (d : Dim) :
    Denotes σ (minusOnes d) (.float d fun _ ↦ -1) := by
  obtain ⟨y, hy, hone⟩ := isMinusOne_ofLiteral
    (l := .float d (Vector.replicate d.size .minusOne)) (isMinusOne_minusOnes d)
  obtain ⟨v, rfl⟩ := Value.eq_float_of_type (type_ofLiteral hy)
  obtain rfl : v = fun _ ↦ -1 := funext hone
  exact ⟨hy, rfl⟩

def offset : Term :=
  .ofHandle (.ofPrim (.vector .float .two)) (.uniform "offset")

/-- A vector times the scalar minus one is its opposite. -/
theorem mul_denotes_product_offset :
    ¬ Mismatched offset (minusOnes .one) ∧
      ∃ z, product (.float .two fun _ ↦ 3) (.float .one fun _ ↦ -1) = some z ∧
        z.type = offset.type ∧
        value (fun _ ↦ some (.float .two fun _ ↦ 3)) (Term.mul offset (minusOnes .one)).expr =
          some z := by
  have hmatched : ¬ Mismatched offset (minusOnes .one) := by
    rw [Mismatched, if_pos (isMinusOne_minusOnes .one)]
    rintro ⟨m, hm⟩
    cases hm
  obtain ⟨-, -, -, hvalue⟩ := mul_denotes_product offset (minusOnes .one) offset.type rfl
  obtain ⟨w, z, hw, hz, hztype, -, hsame⟩ := hvalue (fun _ ↦ some (.float .two fun _ ↦ 3))
    (.float .two fun _ ↦ 3) _ ⟨rfl, rfl⟩ (denotes_minusOnes _ _)
  obtain rfl := hsame.mpr hmatched
  exact ⟨hmatched, w, hz, hztype, hw⟩

def turn : Term :=
  .ofHandle (.ofPrim (.matrix .two2)) (.uniform "m")

/-- A matrix times the vector of minus ones is a vector, but the node is the opposite matrix. -/
theorem mul_negates_matrix :
    Term.productType? turn.type (minusOnes .two).type = some (.ofPrim (.vector .float .two)) ∧
    (Term.mul turn (minusOnes .two)).expr = .unary .neg turn.expr ∧
    value (fun _ ↦ some (.matrix .two2 (.of fun _ _ ↦ 1))) (Term.mul turn (minusOnes .two)).expr =
      some (.matrix .two2 (-.of fun _ _ ↦ 1)) ∧
    product (.matrix .two2 (.of fun _ _ ↦ 1)) (.float .two fun _ ↦ -1) =
      some (.float .two fun _ ↦ -2) := by
  have hnode : (Term.mul turn (minusOnes .two)).expr = .unary .neg turn.expr :=
    if_pos (isMinusOne_minusOnes .two)
  refine ⟨rfl, hnode, ?_, ?_⟩
  · rw [hnode]
    rfl
  · have hrow : ∀ i : Fin 2, ∑ j : Fin 2, (Matrix.of fun _ _ ↦ (1 : ℝ)) i j * -1 = -2 := by
      intro i
      norm_num [Fin.sum_univ_two]
    exact congrArg some (congrArg (Value.float .two) (funext hrow))

end

end Exact

end Shading
