import Shading.Proofs.Code.Mentions

/-!
# Stores

What a body hands over, at any depth and in the order of its text: the assignments in it and the
values that it returns.  A target language carries every store over to a place of its own, so that
the stores of a body and those of its code stand side by side.
-/

namespace Shading

/-- What a statement hands over: something for the target of an assignment, or the value that the
function returns. -/
inductive Store where
  | assigned (target : Expr)
  | returned

/-- The store of a statement by itself.  A returned value counts only if `exits` holds. -/
def Statement.store? (exits : Bool) : Statement → Option Store
  | .assign target _ _ => some (.assigned target)
  | .leave (some _) => if exits then some .returned else none
  | _ => none

def Statement.stores (exits : Bool) (s : Statement) : List Store :=
  s.within.filterMap (Statement.store? exits)

def Block.stores (exits : Bool) (body : Block) : List Store :=
  (Block.within body).filterMap (Statement.store? exits)

def Otherwise.stores (exits : Bool) (rest : Otherwise) : List Store :=
  rest.within.filterMap (Statement.store? exits)

section

variable (exits : Bool)

@[simp] theorem Block.stores_cons (s : Statement) (ss : List Statement) :
    Block.stores exits (s :: ss) = s.stores exits ++ Block.stores exits ss :=
  List.filterMap_append

@[simp] theorem Statement.stores_branch (condition : Expr) (body : List Statement)
    (rest : Otherwise) : (Statement.branch condition body rest).stores exits =
      Block.stores exits body ++ rest.stores exits :=
  List.filterMap_append

@[simp] theorem Statement.stores_forLoop (type : Ty) (counter : Handle)
    (init condition next : Expr) (body : List Statement) :
    (Statement.forLoop type counter init condition next body).stores exits =
      Block.stores exits body := rfl

@[simp] theorem Statement.stores_whileLoop (condition : Expr) (body : List Statement) :
    (Statement.whileLoop condition body).stores exits = Block.stores exits body := rfl

@[simp] theorem Otherwise.stores_test (condition : Expr) (body : List Statement)
    (rest : Otherwise) : (Otherwise.test condition body rest).stores exits =
      Block.stores exits body ++ rest.stores exits :=
  List.filterMap_append

end

theorem mem_stores {exits : Bool} {body : Block} {store : Store}
    (h : store ∈ Block.stores exits body) :
    (∃ target op value, store = .assigned target ∧ .assign target op value ∈ Block.within body) ∨
      ∃ value, store = .returned ∧ .leave (some value) ∈ Block.within body := by
  obtain ⟨s, hs, hstore⟩ := List.mem_filterMap.mp h
  unfold Statement.store? at hstore
  split at hstore
  · cases hstore
    exact .inl ⟨_, _, _, rfl, hs⟩
  · split at hstore
    · cases hstore
      exact .inr ⟨_, rfl, hs⟩
    · cases hstore
  · cases hstore

theorem returned_notMem_stores {body : Block} : .returned ∉ Block.stores false body := by
  intro h
  obtain ⟨s, -, hstore⟩ := List.mem_filterMap.mp h
  unfold Statement.store? at hstore
  split at hstore <;> cases hstore

mutual

/-- The target of an assignment is one of the expressions of a statement around it. -/
theorem mem_exprs_of_assign {target value : Expr} {op : Option UpdateOp} : ∀ s : Statement,
    .assign target op value ∈ s.within → target ∈ s.exprs
  | .declare .., h => by simp [Statement.within] at h
  | .assign .., h => by
    simp only [Statement.within, List.mem_singleton, Statement.assign.injEq] at h
    simp [Statement.exprs, h.1]
  | .leave _, h => by simp [Statement.within] at h
  | .skip, h => by simp [Statement.within] at h
  | .stop, h => by simp [Statement.within] at h
  | .discard, h => by simp [Statement.within] at h
  | .branch condition body rest, h => by
    simp only [Statement.within, List.mem_cons, reduceCtorEq, false_or, List.mem_append] at h
    refine List.mem_cons_of_mem _ (List.mem_append.mpr ?_)
    exact h.imp (mem_exprs_of_assign_block body) (mem_exprs_of_assign_otherwise rest)
  | .forLoop type counter init condition next body, h => by
    simp only [Statement.within, List.mem_cons, reduceCtorEq, false_or] at h
    simp [Statement.exprs, mem_exprs_of_assign_block body h]
  | .whileLoop condition body, h => by
    simp only [Statement.within, List.mem_cons, reduceCtorEq, false_or] at h
    exact List.mem_cons_of_mem _ (mem_exprs_of_assign_block body h)
  | .raw .., h => by simp [Statement.within] at h

theorem mem_exprs_of_assign_block {target value : Expr} {op : Option UpdateOp} :
    ∀ ss : List Statement, .assign target op value ∈ Block.within ss → target ∈ Block.exprs ss
  | [], h => by cases h
  | s :: ss, h => by
    rw [Block.exprs, List.mem_append]
    exact (List.mem_append.mp h).imp (mem_exprs_of_assign s) (mem_exprs_of_assign_block ss)

theorem mem_exprs_of_assign_otherwise {target value : Expr} {op : Option UpdateOp} :
    ∀ rest : Otherwise, .assign target op value ∈ rest.within → target ∈ rest.exprs
  | .nothing, h => by cases h
  | .always body, h => mem_exprs_of_assign_block body h
  | .test condition body rest, h => by
    refine List.mem_cons_of_mem _ (List.mem_append.mpr ?_)
    exact (List.mem_append.mp h).imp (mem_exprs_of_assign_block body)
      (mem_exprs_of_assign_otherwise rest)

end

theorem mem_exprs_of_assigned {exits : Bool} {body : Block} {r : Expr}
    (h : .assigned r ∈ Block.stores exits body) : r ∈ Block.exprs body := by
  rcases mem_stores h with ⟨_, _, _, hstore, hassign⟩ | ⟨_, hstore, -⟩
  · cases hstore
    exact mem_exprs_of_assign_block body hassign
  · cases hstore

/-- To write to a handle is to read it in the target. -/
theorem read_of_root? {h : Handle} : ∀ r : Expr, r.root? = some h →
    .read h ∈ Usage.Event.ofExpr r
  | .var g, hroot => by
    cases hroot
    exact List.mem_singleton_self _
  | .swizzle a _, hroot => read_of_root? a hroot
  | .field a _, hroot => read_of_root? a hroot
  | .index a _, hroot => List.mem_append_left _ (read_of_root? a hroot)
  | .lit _, hroot => by cases hroot
  | .array .., hroot => by cases hroot
  | .unary .., hroot => by cases hroot
  | .binary .., hroot => by cases hroot
  | .call .., hroot => by cases hroot

namespace Code

/-! ### Sinks -/

/-- Where code puts something: into a place, or into the result of the function. -/
inductive Sink where
  | place (x : Expr)
  | result

mutual

/-- The sinks in a statement.  A returned value counts only if `returns` holds. -/
def Statement.sinks (returns : Bool) : Statement → List Sink
  | .assign target _ _ => [.place target]
  | .leave (some _) => if returns then [.result] else []
  | .branch _ body rest => sinksAll returns body ++ rest.sinks returns
  | .forLoop _ _ _ _ _ body => sinksAll returns body
  | .whileLoop _ body => sinksAll returns body
  | _ => []

def sinksAll (returns : Bool) : List Statement → List Sink
  | [] => []
  | s :: ss => s.sinks returns ++ sinksAll returns ss

def Otherwise.sinks (returns : Bool) : Otherwise → List Sink
  | .nothing => []
  | .always body => sinksAll returns body
  | .test _ body rest => sinksAll returns body ++ rest.sinks returns

end

theorem sinksAll_append (returns : Bool) (ss ss' : List Statement) :
    sinksAll returns (ss ++ ss') = sinksAll returns ss ++ sinksAll returns ss' := by
  induction ss with
  | nil => rfl
  | cons s ss ih => rw [List.cons_append, sinksAll, sinksAll, ih, List.append_assoc]

theorem sinksAll_singleton (returns : Bool) (s : Statement) :
    sinksAll returns [s] = s.sinks returns :=
  List.append_nil _

namespace Target

/-- What a store becomes: the target of an assignment is carried over, and `exit` takes what is
returned. -/
inductive Stored (t : Target) (exit : Sink) : Store → Sink → Prop
  | assigned {r : Shading.Expr} {x : Expr} (h : t.expr r = .ok x) :
      Stored t exit (.assigned r) (.place x)
  | returned : Stored t exit .returned exit

/-- A language has the sink `exit` for a returned value if `exits` holds, and none otherwise. -/
structure Takes (t : Target) (exits returns : Bool) (exit : Sink) : Prop where
  value : ∀ v, sinksAll returns (t.leave (some v)) = if exits then [exit] else []
  bare : sinksAll returns (t.leave none) = []

variable {t : Target} {exits returns : Bool} {exit : Sink}

mutual

theorem stored_statement (ht : t.Takes exits returns exit) :
    ∀ (s : Shading.Statement) {code : List Statement}, t.statement s = .ok code →
      List.Forall₂ (t.Stored exit) (s.stores exits) (sinksAll returns code)
  | .declare type h init, code, hcode => by
    obtain ⟨type, -, hcode⟩ := bind_eq_ok.mp hcode
    obtain ⟨init, -, hcode⟩ := bind_eq_ok.mp hcode
    cases hcode
    exact .nil
  | .assign target op value, code, hcode => by
    obtain ⟨x, hx, hcode⟩ := bind_eq_ok.mp hcode
    obtain ⟨y, -, hcode⟩ := bind_eq_ok.mp hcode
    cases hcode
    exact .cons (.assigned hx) .nil
  | .leave none, code, hcode => by
    obtain ⟨v, hv, hcode⟩ := bind_eq_ok.mp hcode
    cases hv
    cases hcode
    rw [ht.bare]
    exact .nil
  | .leave (some value), code, hcode => by
    obtain ⟨v, hv, hcode⟩ := bind_eq_ok.mp hcode
    obtain ⟨x, -, hv⟩ := bind_eq_ok.mp hv
    cases hv
    cases hcode
    rw [ht.value]
    cases exits with
    | false => exact .nil
    | true => exact .cons .returned .nil
  | .skip, code, hcode => by
    cases hcode
    exact .nil
  | .stop, code, hcode => by
    cases hcode
    exact .nil
  | .discard, code, hcode => by
    cases hcode
    exact .nil
  | .branch condition body rest, code, hcode => by
    obtain ⟨x, -, hcode⟩ := bind_eq_ok.mp hcode
    obtain ⟨inner, hinner, hcode⟩ := bind_eq_ok.mp hcode
    obtain ⟨others, hothers, hcode⟩ := bind_eq_ok.mp hcode
    cases hcode
    rw [Statement.stores_branch, sinksAll_singleton]
    exact List.rel_append (stored_block ht body hinner) (stored_otherwise ht rest hothers)
  | .forLoop type h init condition next body, code, hcode => by
    obtain ⟨type, -, hcode⟩ := bind_eq_ok.mp hcode
    obtain ⟨init, -, hcode⟩ := bind_eq_ok.mp hcode
    obtain ⟨x, -, hcode⟩ := bind_eq_ok.mp hcode
    obtain ⟨next, -, hcode⟩ := bind_eq_ok.mp hcode
    obtain ⟨inner, hinner, hcode⟩ := bind_eq_ok.mp hcode
    cases hcode
    rw [Statement.stores_forLoop, sinksAll_singleton]
    exact stored_block ht body hinner
  | .whileLoop condition body, code, hcode => by
    obtain ⟨x, -, hcode⟩ := bind_eq_ok.mp hcode
    obtain ⟨inner, hinner, hcode⟩ := bind_eq_ok.mp hcode
    cases hcode
    rw [Statement.stores_whileLoop, sinksAll_singleton]
    exact stored_block ht body hinner
  | .raw glsl wgsl, code, hcode => by
    cases hcode
    exact .nil

/-- The stores of a body and the sinks of its code, one by one. -/
theorem stored_block (ht : t.Takes exits returns exit) :
    ∀ (ss : List Shading.Statement) {code : List Statement}, t.block ss = .ok code →
      List.Forall₂ (t.Stored exit) (Block.stores exits ss) (sinksAll returns code)
  | [], code, hcode => by
    cases hcode
    exact .nil
  | s :: ss, code, hcode => by
    obtain ⟨first, hfirst, hcode⟩ := bind_eq_ok.mp hcode
    obtain ⟨others, hothers, hcode⟩ := bind_eq_ok.mp hcode
    cases hcode
    rw [Block.stores_cons, sinksAll_append]
    exact List.rel_append (stored_statement ht s hfirst) (stored_block ht ss hothers)

theorem stored_otherwise (ht : t.Takes exits returns exit) :
    ∀ (rest : Shading.Otherwise) {code : Otherwise}, t.otherwise rest = .ok code →
      List.Forall₂ (t.Stored exit) (rest.stores exits) (code.sinks returns)
  | .nothing, code, hcode => by
    cases hcode
    exact .nil
  | .always body, code, hcode => by
    obtain ⟨inner, hinner, hcode⟩ := bind_eq_ok.mp hcode
    cases hcode
    exact stored_block ht body hinner
  | .test condition body rest, code, hcode => by
    obtain ⟨x, -, hcode⟩ := bind_eq_ok.mp hcode
    obtain ⟨inner, hinner, hcode⟩ := bind_eq_ok.mp hcode
    obtain ⟨others, hothers, hcode⟩ := bind_eq_ok.mp hcode
    cases hcode
    rw [Otherwise.stores_test]
    exact List.rel_append (stored_block ht body hinner) (stored_otherwise ht rest hothers)

end

/-- A helper hands over what its body does: its result is no store. -/
theorem stored_function (ht : t.Takes false false exit) {name : String} {helper : Helper}
    {f : Function} (h : t.function name helper = .ok f) :
    List.Forall₂ (t.Stored exit) (Block.stores false helper.body) (sinksAll false f.body) := by
  obtain ⟨_, -, h⟩ := bind_eq_ok.mp h
  obtain ⟨_, -, h⟩ := bind_eq_ok.mp h
  obtain ⟨code, hcode, h⟩ := bind_eq_ok.mp h
  obtain ⟨last, -, h⟩ := bind_eq_ok.mp h
  cases h
  rw [sinksAll_append, ← List.append_nil (Block.stores false helper.body)]
  refine List.rel_append (stored_block ht helper.body hcode) ?_
  cases last with
  | none => exact .nil
  | some x => exact .nil

end Target

/-! ### Locations -/

/-- The location of the place that an expression names, or names a part of.  Whole places are given
by `named?`. -/
def Expr.location? (named? : Expr → Option Nat) : Expr → Option Nat
  | .member x name => (x.location? named?).or (named? (.member x name))
  | .index x i => (x.location? named?).or (named? (.index x i))
  | x => named? x

/-- The location of a sink, where `result` is that of the function's result. -/
def Sink.location? (named? : Expr → Option Nat) (result : Option Nat) : Sink → Option Nat
  | .place x => x.location? named?
  | .result => result

section

variable {named? : Expr → Option Nat} {x : Expr} {k : Nat}

theorem location?_member (h : x.location? named? = some k) (name : String) :
    (Expr.member x name).location? named? = some k := by
  rw [Expr.location?, h, Option.some_or]

theorem location?_index (h : x.location? named? = some k) (i : Expr) :
    (Expr.index x i).location? named? = some k := by
  rw [Expr.location?, h, Option.some_or]

end

end Code

end Shading
