import Shading.Proofs.Reading.Targets

/-!
# Values of integer expressions

Integer expressions have a value in wrapping 32-bit arithmetic, and so have the trees that are read
from their text.  A sum or difference on the right of a sum may lose its parentheses, since addition
is associative.  The same is true of a product on the right of a product, but not of a quotient or a
remainder there: the text of `a * (b / c)` has the value of `(a * b) / c`.

Main statement: the text of an integer expression has the value of the expression in which every
such quotient takes the factor into its dividend, and the value of the expression itself if there is
no such quotient.
-/

namespace Shading.Reading

/-! ### Arithmetic -/

inductive Value where
  | int (x : Int32)
  | uint (x : UInt32)
  deriving DecidableEq, Repr

namespace Value

def neg : Value → Value
  | int x => int (-x)
  | uint x => uint (-x)

/-- Operations on two integers of one type; nothing is divided by zero. -/
def arithmetic {α : Type} [Add α] [Sub α] [Mul α] [Div α] [Mod α] [AndOp α] [OrOp α] [XorOp α]
    [OfNat α 0] [DecidableEq α] (op : BinaryOp) (x y : α) : Option α :=
  match op with
  | .add => some (x + y)
  | .sub => some (x - y)
  | .mul => some (x * y)
  | .div => if y = 0 then none else some (x / y)
  | .rem => if y = 0 then none else some (x % y)
  | .bitAnd => some (x &&& y)
  | .bitOr => some (x ||| y)
  | .bitXor => some (x ^^^ y)
  | _ => none

/-- Both operands have one type, except that the amount of a shift is unsigned. -/
def apply (op : BinaryOp) : Value → Value → Option Value
  | int x, int y => (arithmetic op x y).map int
  | int x, uint y =>
    match op with
    | .shl => some (int (x <<< y.toInt32))
    | .shr => some (int (x >>> y.toInt32))
    | _ => none
  | uint x, uint y =>
    match op with
    | .shl => some (uint (x <<< y))
    | .shr => some (uint (x >>> y))
    | _ => (arithmetic op x y).map uint
  | uint _, int _ => none

end Value

def operate (op : BinaryOp) (v w : Option Value) : Option Value :=
  v.bind fun x ↦ w.bind fun y ↦ x.apply op y

theorem apply_add_term {o : BinaryOp} (ho : isTerm o = true) (x y z : Value) :
    (y.apply o z).bind (x.apply .add) = (x.apply .add y).bind fun v ↦ v.apply o z := by
  cases o <;> simp only [isTerm, Bool.false_eq_true] at ho <;>
    cases x <;> cases y <;> cases z <;>
    simp only [Value.apply, Value.arithmetic, Option.map_some, Option.bind_some, Option.bind_none,
      Option.some.injEq, Value.int.injEq, Value.uint.injEq] <;>
    grind

theorem apply_mul_mul (x y z : Value) :
    (y.apply .mul z).bind (x.apply .mul) = (x.apply .mul y).bind fun v ↦ v.apply .mul z := by
  cases x <;> cases y <;> cases z <;>
    simp only [Value.apply, Value.arithmetic, Option.map_some, Option.bind_some, Option.bind_none,
      Option.some.injEq, Value.int.injEq, Value.uint.injEq] <;>
    grind

theorem operate_operate {op o : BinaryOp}
    (h : ∀ x y z : Value, (y.apply o z).bind (x.apply op) = (x.apply op y).bind fun v ↦ v.apply o z)
    (u v w : Option Value) : operate op u (operate o v w) = operate o (operate op u v) w := by
  cases u with
  | none => rfl
  | some x =>
      cases v with
      | none => rfl
      | some y =>
          cases w with
          | none => simp [operate]
          | some z => simpa [operate] using h x y z

/-! ### Numerals -/

def digits? (cs : List Char) : Option Nat :=
  if cs ≠ [] ∧ cs.all Char.isDigit then some (Nat.ofDigitChars 10 cs 0) else none

/-- The value of a numeral; the unsigned ones end in `u`. -/
def numeral? (s : String) : Option Value :=
  if s.toList.getLast? = some 'u' then
    (digits? s.toList.dropLast).map fun n ↦ .uint (.ofNat n)
  else (digits? s.toList).map fun n ↦ .int (.ofNat n)

theorem digits?_toDigits (n : Nat) : digits? (Nat.toDigits 10 n) = some n := by
  have hdigits : (Nat.toDigits 10 n).all Char.isDigit = true := by
    rw [List.all_eq_true]
    intro c hc
    exact Nat.isDigit_of_mem_toDigits (Nat.succ_pos 9) (Nat.le_refl 10) hc
  rw [digits?, if_pos ⟨Nat.toDigits_ne_nil, hdigits⟩, Nat.ofDigitChars_ten_toDigits]

theorem numeral?_int (n : Nat) : numeral? (toString n) = some (.int (.ofNat n)) := by
  have hlast : (Nat.toDigits 10 n).getLast? ≠ some 'u' := by
    intro hu
    have hdigit := Nat.isDigit_of_mem_toDigits (Nat.succ_pos 9) (Nat.le_refl 10)
      (List.mem_of_getLast? hu)
    exact absurd hdigit (by decide)
  have hlist : (toString n).toList = Nat.toDigits 10 n := by simp
  rw [numeral?, hlist, if_neg hlast, digits?_toDigits]
  rfl

theorem numeral?_uint (n : Nat) : numeral? (toString n ++ "u") = some (.uint (.ofNat n)) := by
  have hlist : (toString n ++ "u").toList = Nat.toDigits 10 n ++ ['u'] := by simp
  rw [numeral?, hlist, if_pos List.getLast?_concat, List.dropLast_concat, digits?_toDigits]
  rfl

/-! ### Values of trees -/

/-- The value of a tree, where `σ` gives the values of what is neither a numeral nor an
operation. -/
def Tree.value (σ : Tree → Option Value) : Tree → Option Value
  | word s => (numeral? s).or (σ (word s))
  | unary .neg t => (t.value σ).map Value.neg
  | unary .not _ => none
  | binary op t u => operate op (t.value σ) (u.value σ)
  | t => σ t

theorem value_graft_add (σ : Tree → Option Value) (t u : Tree) :
    (Tree.graft .add t u).value σ = operate .add (t.value σ) (u.value σ) := by
  fun_induction Tree.graft .add t u with
  | case1 o a b ho ih =>
      rw [Tree.value, ih, Tree.value, operate_operate (apply_add_term ho)]
  | case2 o a b ho => rw [Tree.value]
  | case3 u hu => rw [Tree.value]

/-! ### Values of expressions -/

def eval (ρ : Handle → Value) : Expr → Option Value
  | .lit (.int .one v) => some (.int (v.get ⟨0, by decide⟩))
  | .lit (.uint .one v) => some (.uint (v.get ⟨0, by decide⟩))
  | .var h => some (ρ h)
  | .unary .neg a => (eval ρ a).map Value.neg
  | .binary op a b => operate op (eval ρ a) (eval ρ b)
  | _ => none

def isInteger : BinaryOp → Bool
  | .bitOr => true
  | .bitAnd => true
  | .bitXor => true
  | .shl => true
  | .shr => true
  | op => isTerm op || isFactor op

/-- Expressions made of integers, handles, negations, and arithmetic, bitwise and shift
operations. -/
inductive Arithmetic : Expr → Prop
  | int (x : Int32) : Arithmetic (.lit (.int .one #v[x]))
  | uint (x : UInt32) : Arithmetic (.lit (.uint .one #v[x]))
  | var (h : Handle) : Arithmetic (.var h)
  | neg {a : Expr} (ha : Arithmetic a) : Arithmetic (.unary .neg a)
  | binary {op : BinaryOp} (hop : isInteger op = true) {a b : Expr} (ha : Arithmetic a)
      (hb : Arithmetic b) : Arithmetic (.binary op a b)

def handles : Expr → List Handle
  | .var h => [h]
  | .unary _ a => handles a
  | .binary _ a b => handles a ++ handles b
  | _ => []

/-- The product of two expressions, where the first is taken into the first factor of the
second. -/
def scale (a : Expr) : Expr → Expr
  | .binary .mul b c => .binary .mul (scale a b) c
  | .binary .div b c => .binary .div (scale a b) c
  | .binary .rem b c => .binary .rem (scale a b) c
  | b => .binary .mul a b

/-- Every product taken into the first factor on its right: `a * (b / c)` becomes `(a * b) / c`. -/
def hoist : Expr → Expr
  | .unary op a => .unary op (hoist a)
  | .binary .mul a b => scale (hoist a) (hoist b)
  | .binary op a b => .binary op (hoist a) (hoist b)
  | e => e

/-- Whether the first of the factors of an expression is divided. -/
def dividesFirst : Expr → Bool
  | .binary .div _ _ => true
  | .binary .rem _ _ => true
  | .binary .mul a _ => dividesFirst a
  | _ => false

/-- No quotient or remainder is multiplied from the left. -/
def NoScaledQuotient : Expr → Prop
  | .unary _ a => NoScaledQuotient a
  | .binary .mul a b => NoScaledQuotient a ∧ NoScaledQuotient b ∧ dividesFirst b = false
  | .binary _ a b => NoScaledQuotient a ∧ NoScaledQuotient b
  | _ => True

theorem scale_of_not_factor {op : BinaryOp} (hop : isFactor op = false) (a b c : Expr) :
    scale a (.binary op b c) = .binary .mul a (.binary op b c) := by
  cases op <;> first | rfl | simp [isFactor] at hop

theorem hoist_of_ne_mul {op : BinaryOp} (hop : op ≠ .mul) (a b : Expr) :
    hoist (.binary op a b) = .binary op (hoist a) (hoist b) := by
  cases op <;> first | rfl | exact (hop rfl).elim

theorem scale_scale (a b c : Expr) : scale (scale a b) c = scale a (scale b c) := by
  fun_induction scale b c with
  | case1 c d ih => simp only [scale, ih]
  | case2 c d ih => simp only [scale, ih]
  | case3 c d ih => simp only [scale, ih]
  | case4 c hmul hdiv hrem =>
      have hscale : ∀ x, scale x c = .binary .mul x c := by
        intro x
        rw [scale]
        · exact hmul
        · exact hdiv
        · exact hrem
      rw [hscale, scale]

/-! ### Values of text -/

section Text

variable {l : Language} {σ : Tree → Option Value} {ρ : Handle → Value}

/-- A tree that is read whole wherever it stands. -/
def Whole (t : Tree) : Prop :=
  t.regroup = t ∧ ∀ joins, t.isBy joins = false

/-- A language that writes integer operators as they are, and variables without operators. -/
structure Plain (l : Language) : Prop where
  operator : ∀ {op}, isInteger op = true → l.operator op = op
  handle : ∀ h, Whole (l.handle h)

/-- The tree `t` has the value of `e`, and so has its product with anything on the left. -/
structure Follows (σ : Tree → Option Value) (ρ : Handle → Value) (t : Tree) (e : Expr) : Prop where
  value : t.value σ = eval ρ (hoist e)
  product : ∀ {x : Tree} {y : Expr}, x.value σ = eval ρ y →
    (Tree.graft .mul x t).value σ = eval ρ (scale y (hoist e))

/-- What is not a product, a quotient or a remainder is a factor as a whole. -/
theorem follows_of_factor {t : Tree} {e : Expr} (ht : t.isBy isFactor = false)
    (he : ∀ y, scale y (hoist e) = .binary .mul y (hoist e)) (h : t.value σ = eval ρ (hoist e)) :
    Follows σ ρ t e where
  value := h
  product {x y} hxy := by
    have hgraft : Tree.graft .mul x t = .binary .mul x t := Tree.graft_of_isBy_eq_false ht
    rw [hgraft, he, Tree.value, eval, hxy, h]

theorem value_signed (x : Int32) :
    (signedTree (x.toInt < 0) (toString x.toInt.natAbs)).value σ = some (.int x) := by
  have hword : (Tree.word (toString x.toInt.natAbs)).value σ =
      some (.int (Int32.ofInt x.toInt.natAbs)) := by
    rw [Tree.value, numeral?_int, Int32.ofInt_eq_ofNat]
    rfl
  by_cases hx : x.toInt < 0
  · have habs : (x.toInt.natAbs : Int) = -x.toInt := by omega
    have hneg : -Int32.ofInt x.toInt.natAbs = x := by
      rw [habs, Int32.ofInt_neg, Int32.neg_neg, Int32.ofInt_toInt]
    rw [signedTree, if_pos (decide_eq_true hx), Tree.value, hword, Option.map_some, Value.neg, hneg]
  · have habs : (x.toInt.natAbs : Int) = x.toInt := by omega
    rw [signedTree, decide_eq_false hx, if_neg Bool.false_ne_true, hword, habs, Int32.ofInt_toInt]

theorem reading_int (x : Int32) : reading l (.lit (.int .one #v[x])) =
    signedTree (x.toInt < 0) (toString x.toInt.natAbs) := by
  rw [reading]
  rfl

theorem reading_uint (x : UInt32) : reading l (.lit (.uint .one #v[x])) =
    .word (toString x.toNat ++ "u") := by
  rw [reading]
  rfl

theorem follows_int (x : Int32) :
    Follows σ ρ (reading l (.lit (.int .one #v[x]))).regroup (.lit (.int .one #v[x])) := by
  have hwhole : Whole (signedTree (x.toInt < 0) (toString x.toInt.natAbs)) := by
    unfold signedTree
    split <;> exact ⟨rfl, fun _ ↦ rfl⟩
  rw [reading_int, hwhole.1]
  exact follows_of_factor (hwhole.2 _) (fun _ ↦ rfl) (value_signed x)

theorem follows_uint (x : UInt32) :
    Follows σ ρ (reading l (.lit (.uint .one #v[x]))).regroup (.lit (.uint .one #v[x])) := by
  have hvalue : (Tree.word (toString x.toNat ++ "u")).value σ = some (.uint x) := by
    rw [Tree.value, numeral?_uint, UInt32.ofNat_toNat]
    rfl
  rw [reading_uint]
  exact follows_of_factor rfl (fun _ ↦ rfl) hvalue

theorem Follows.mul {t u : Tree} {a b : Expr} (ha : Follows σ ρ t a) (hb : Follows σ ρ u b) :
    Follows σ ρ (Tree.graft .mul t u) (.binary .mul a b) where
  value := hb.product ha.value
  product {x y} hxy := by
    have hproduct := hb.product (ha.product hxy)
    rw [Tree.graft_graft rfl, scale_scale] at hproduct
    exact hproduct

/-- A factor on the left of a quotient goes to the dividend. -/
theorem Follows.quotient {op : BinaryOp} (hop : op = .div ∨ op = .rem) {t u : Tree} {a b : Expr}
    (ha : Follows σ ρ t a) (hb : Follows σ ρ u b) :
    Follows σ ρ (Tree.graft op t u) (.binary op a b) := by
  have hgraft : Tree.graft op t u = .binary op t u := by
    apply Tree.graft_of_regroups_eq_false
    intro o
    rcases hop with rfl | rfl <;> rfl
  have hhoist : hoist (.binary op a b) = .binary op (hoist a) (hoist b) := by
    apply hoist_of_ne_mul
    rcases hop with rfl | rfl <;> simp
  refine ⟨?_, ?_⟩
  · rw [hgraft, hhoist, Tree.value, eval, ha.value, hb.value]
  · intro x y hxy
    have hregroups : regroups .mul op = true := by rcases hop with rfl | rfl <;> rfl
    have hscale : scale y (.binary op (hoist a) (hoist b)) =
        .binary op (scale y (hoist a)) (hoist b) := by
      rcases hop with rfl | rfl <;> rfl
    rw [hgraft, hhoist, Tree.graft_binary hregroups, hscale, Tree.value, eval, ha.product hxy,
      hb.value]

/-- Operations that are no factors are grouped without a change of value. -/
theorem Follows.binary {op : BinaryOp} (hop : isFactor op = false) {t u : Tree} {a b : Expr}
    (ha : Follows σ ρ t a) (hb : Follows σ ρ u b) :
    Follows σ ρ (Tree.graft op t u) (.binary op a b) := by
  have hne : op ≠ .mul := by
    rintro rfl
    cases hop
  have hhoist : hoist (.binary op a b) = .binary op (hoist a) (hoist b) := hoist_of_ne_mul hne a b
  apply follows_of_factor
  · rw [Tree.isBy_graft _ t u, hop]
    intro o ho
    rw [isFactor_eq, isFactor_eq, gradeOf_eq_of_regroups ho]
  · intro y
    rw [hhoist, scale_of_not_factor hop]
  · rw [hhoist, eval, ← ha.value, ← hb.value]
    by_cases hadd : op = .add
    · subst hadd
      exact value_graft_add σ t u
    · have hregroups : ∀ o, regroups op o = false := by
        cases op <;> first | exact fun _ ↦ rfl | exact (hadd rfl).elim | exact (hne rfl).elim
      rw [Tree.graft_of_regroups_eq_false hregroups, Tree.value]

theorem follows_reading (hl : Plain l) {e : Expr} (h : Arithmetic e)
    (hσ : ∀ x ∈ handles e, (l.handle x).value σ = some (ρ x)) :
    Follows σ ρ (reading l e).regroup e := by
  induction h with
  | int x => exact follows_int x
  | uint x => exact follows_uint x
  | var x =>
      rw [reading, (hl.handle x).1]
      exact follows_of_factor ((hl.handle x).2 _) (fun _ ↦ rfl) (hσ x (by simp [handles]))
  | neg ha ih =>
      have iha := ih hσ
      rw [reading, Tree.regroup]
      refine follows_of_factor rfl (fun _ ↦ rfl) ?_
      rw [Tree.value, iha.value]
      rfl
  | @binary op hop a b ha hb iha ihb =>
      have hleft := iha fun x hx ↦ hσ x (List.mem_append_left _ hx)
      have hright := ihb fun x hx ↦ hσ x (List.mem_append_right _ hx)
      rw [reading, hl.operator hop, Tree.regroup]
      by_cases hfactor : isFactor op = false
      · exact hleft.binary hfactor hright
      · by_cases hmul : op = .mul
        · subst hmul
          exact hleft.mul hright
        · have hquotient : op = .div ∨ op = .rem := by
            cases op <;> simp_all [isFactor]
          exact hleft.quotient hquotient hright

/-! ### Without scaled quotients -/

theorem eval_scale {e : Expr} (h : dividesFirst e = false) (a : Expr) :
    eval ρ (scale a e) = operate .mul (eval ρ a) (eval ρ e) := by
  fun_induction scale a e with
  | case1 b c ih =>
      rw [eval, ih h, eval, operate_operate apply_mul_mul]
  | case2 b c ih => cases h
  | case3 b c ih => cases h
  | case4 b hmul hdiv hrem => rw [eval]

theorem dividesFirst_scale (a e : Expr) :
    dividesFirst (scale a e) = (dividesFirst e || dividesFirst a) := by
  fun_induction scale a e with
  | case1 b c ih => rw [dividesFirst, ih, dividesFirst]
  | case2 b c ih => rfl
  | case3 b c ih => rfl
  | case4 b hmul hdiv hrem =>
      have hfirst : dividesFirst b = false := by
        rw [dividesFirst]
        · exact hdiv
        · exact hrem
        · exact hmul
      rw [hfirst, dividesFirst, Bool.false_or]

/-- Hoisting keeps values where it moves no quotient. -/
theorem eval_hoist {e : Expr} (h : NoScaledQuotient e) :
    eval ρ (hoist e) = eval ρ e ∧ dividesFirst (hoist e) = dividesFirst e := by
  fun_induction hoist e with
  | case1 op a ih =>
      refine ⟨?_, rfl⟩
      cases op with
      | neg => rw [eval, eval, (ih h).1]
      | not => rfl
  | case2 a b iha ihb =>
      obtain ⟨ha, hb, hfirst⟩ := h
      obtain ⟨hvala, hfirsta⟩ := iha ha
      obtain ⟨hvalb, hfirstb⟩ := ihb hb
      rw [hfirst] at hfirstb
      refine ⟨?_, ?_⟩
      · rw [eval_scale hfirstb, hvala, hvalb, eval]
      · rw [dividesFirst_scale, hfirstb, hfirsta, Bool.false_or, dividesFirst]
  | case3 op a b hop iha ihb =>
      have hab : NoScaledQuotient a ∧ NoScaledQuotient b := by
        cases op <;> first | exact h | exact (hop rfl).elim
      refine ⟨?_, ?_⟩
      · rw [eval, eval, (iha hab.1).1, (ihb hab.2).1]
      · cases op <;> first | rfl | exact (hop rfl).elim
  | case4 e hunary hmul hbinary => exact ⟨rfl, rfl⟩

end Text

theorem plain_glsl (color : String) : Plain (glsl color) where
  operator _ := rfl
  handle h := by
    cases h with
    | _ => exact ⟨rfl, fun _ ↦ rfl⟩

theorem whole_fieldOf (struct : Option String) (name : String) : Whole (fieldOf struct name) := by
  cases struct with
  | _ => exact ⟨rfl, fun _ ↦ rfl⟩

theorem whole_wgslBuiltin (place : Wgsl.Place) (b : Builtin) : Whole (wgslBuiltin place b) := by
  cases b with
  | position => exact whole_fieldOf _ _
  | fragCoord => exact whole_fieldOf _ _
  | frontFacing => exact whole_fieldOf _ _
  | fragColor =>
      rw [wgslBuiltin]
      unfold wgslColor
      split <;> exact ⟨rfl, fun _ ↦ rfl⟩
  | _ => exact ⟨rfl, fun _ ↦ rfl⟩

theorem plain_wgsl (place : Wgsl.Place) : Plain (wgsl place) where
  operator {op} hop := by
    have hne : op ≠ .xor := by
      rintro rfl
      cases hop
    exact if_neg hne
  handle h := by
    cases h with
    | builtin b => exact whole_wgslBuiltin place b
    | varying n => exact whole_fieldOf _ _
    | output n => exact whole_fieldOf _ _
    | _ => exact ⟨rfl, fun _ ↦ rfl⟩

theorem Arithmetic.proper {e : Expr} (h : Arithmetic e) : Proper e := by
  induction h with
  | int x => trivial
  | uint x => trivial
  | var h => trivial
  | neg ha ih => rwa [Proper]
  | binary hop ha hb iha ihb =>
      rw [Proper]
      exact ⟨iha, ihb⟩

theorem value_of_yields {l : Language} (hl : Plain l) {named sure : Prop}
    {outcome : Except Error Code.Expr} {e : Expr} (h : Arithmetic e)
    (hyields : Yields named sure outcome (reading l e)) {code : Code.Expr}
    (hcode : outcome = .ok code) {σ : Tree → Option Value} {ρ : Handle → Value}
    (hσ : ∀ x ∈ handles e, (l.handle x).value σ = some (ρ x)) :
    ∃ t, (named → read code.text = some (lexemes code.tokens)) ∧
      parse (lexemes code.tokens) = some t ∧ t.value σ = eval ρ (hoist e) ∧
      (NoScaledQuotient e → t.value σ = eval ρ e) := by
  have hvalue := (follows_reading hl h hσ).value
  have hwritten := hyields.written code hcode
  refine ⟨_, hwritten.read, hwritten.parse, hvalue, ?_⟩
  intro hno
  rw [hvalue, (eval_hoist hno).1]

/-- The text of an integer expression has the value of the expression, in both languages and for all
values of its variables, if no quotient or remainder is multiplied from the left; in general it has
the value of the hoisted expression. -/
theorem value_written_lower (e : Expr) (h : Arithmetic e) (ρ : Handle → Value)
    (σ : Tree → Option Value) :
    (∀ color location, (∀ x ∈ handles e, ((glsl color).handle x).value σ = some (ρ x)) →
      ∃ code t, Glsl.lower ⟨.es300, .word color, location⟩ e = .ok code ∧
        (Named e ∧ isName color = true → read code.text = some (lexemes code.tokens)) ∧
        parse (lexemes code.tokens) = some t ∧ t.value σ = eval ρ (hoist e) ∧
        (NoScaledQuotient e → t.value σ = eval ρ e)) ∧
    (∀ place, (∀ x ∈ handles e, ((wgsl place).handle x).value σ = some (ρ x)) →
      (∀ code, Wgsl.lower place e = .ok code →
        ∃ t, (Named e ∧ NamedPlace place → read code.text = some (lexemes code.tokens)) ∧
          parse (lexemes code.tokens) = some t ∧ t.value σ = eval ρ (hoist e) ∧
          (NoScaledQuotient e → t.value σ = eval ρ e)) ∧
      ((∀ stage, place ≠ .helper stage) → ∃ code, Wgsl.lower place e = .ok code)) := by
  refine ⟨?_, ?_⟩
  · intro color location hσ
    have hyields := yields_glsl color location h.proper
    obtain ⟨code, hcode⟩ := hyields.succeeds trivial
    obtain ⟨t, ht⟩ := value_of_yields (plain_glsl color) h hyields hcode hσ
    exact ⟨code, t, hcode, ht⟩
  · intro place hσ
    have hyields := yields_wgsl place h.proper
    refine ⟨?_, hyields.succeeds⟩
    intro code hcode
    exact value_of_yields (plain_wgsl place) h hyields hcode hσ

/-- A difference on the right of a sum, with variables in both languages. -/
theorem value_written_lower_sum :
    Arithmetic (.binary .add (.var (.uniform "a")) (.binary .sub (.var (.uniform "b"))
      (.var (.uniform "c")))) ∧
    (∃ code t, Glsl.lower .standalone (.binary .add (.var (.uniform "a")) (.binary .sub
        (.var (.uniform "b")) (.var (.uniform "c")))) = .ok code ∧
      (read code.text).bind parse = some t ∧ t.value (fun _ ↦ some (.int 7)) = some (.int 7)) ∧
    ∃ code t, Wgsl.lower .standalone (.binary .add (.var (.uniform "a")) (.binary .sub
        (.var (.uniform "b")) (.var (.uniform "c")))) = .ok code ∧
      (read code.text).bind parse = some t ∧ t.value (fun _ ↦ some (.int 7)) = some (.int 7) := by
  have harith : Arithmetic (.binary .add (.var (.uniform "a")) (.binary .sub (.var (.uniform "b"))
      (.var (.uniform "c")))) := .binary rfl (.var _) (.binary rfl (.var _) (.var _))
  have hnamed : Named (.binary .add (.var (.uniform "a")) (.binary .sub (.var (.uniform "b"))
      (.var (.uniform "c")))) := by
    simp only [Named, NamedHandle]
    decide
  have hno : NoScaledQuotient (.binary .add (.var (.uniform "a")) (.binary .sub
      (.var (.uniform "b")) (.var (.uniform "c")))) := ⟨trivial, trivial, trivial⟩
  obtain ⟨hglsl, hwgsl⟩ := value_written_lower _ harith (fun _ ↦ .int 7) fun _ ↦ some (.int 7)
  obtain ⟨code, t, hcode, hread, ht, -, hvalue⟩ := hglsl "gl_FragColor" (fun _ ↦ 0) (by decide)
  obtain ⟨hall, hsucceeds⟩ := hwgsl .standalone (by decide)
  obtain ⟨code', hcode'⟩ := hsucceeds (by simp)
  obtain ⟨t', hread', ht', -, hvalue'⟩ := hall code' hcode'
  refine ⟨harith, ⟨code, t, hcode, ?_, hvalue hno⟩, code', t', hcode', ?_, hvalue' hno⟩
  · rw [hread ⟨hnamed, by decide⟩]
    exact ht
  · rw [hread' ⟨hnamed, trivial⟩]
    exact ht'

/-- `2 * (1 / 2)` is zero, and its text `2 * 1 / 2` is one. -/
theorem value_written_scaled_quotient :
    eval (fun _ ↦ .int 0) (.binary .mul (.lit (.int .one #v[2]))
      (.binary .div (.lit (.int .one #v[1])) (.lit (.int .one #v[2])))) = some (.int 0) ∧
    (∃ code t, Glsl.lower .standalone (.binary .mul (.lit (.int .one #v[2]))
        (.binary .div (.lit (.int .one #v[1])) (.lit (.int .one #v[2])))) = .ok code ∧
      code.text = "2 * 1 / 2" ∧ (read "2 * 1 / 2").bind parse = some t ∧
      t.value (fun _ ↦ none) = some (.int 1)) ∧
    ∃ code t, Wgsl.lower .standalone (.binary .mul (.lit (.int .one #v[2]))
        (.binary .div (.lit (.int .one #v[1])) (.lit (.int .one #v[2])))) = .ok code ∧
      code.text = "2 * 1 / 2" ∧ (read "2 * 1 / 2").bind parse = some t ∧
      t.value (fun _ ↦ none) = some (.int 1) := by
  have hread : read "2 * 1 / 2" = some [.word "2", .operator .mul, .word "1", .operator .div,
      .word "2"] := by
    decide +kernel
  rw [hread]
  exact ⟨by decide, ⟨_, _, rfl, by decide +kernel, rfl, by decide⟩, _, _, rfl, by decide +kernel,
    rfl, by decide⟩

end Shading.Reading
