import Shading.Program.Declare
import Shading.Proofs.Outcome

/-!
# Scripts

A body as its author has it in mind: a block in which the variables have names of the author's own
choice.  To perform a script is to make the calls that record it, in its order and nested as it is,
and to use what a call returned wherever the script has the name of the variable.  A name is known
up to the end of the block in which it is declared.
-/

namespace Shading

/-! ### Runs of recorders -/

namespace Recorder

variable {α : Type}

theorem run_nest (action : Recorder α) (s : Scope) :
    (nest action).run s = action.run (.empty (s.depth + 1)) >>= fun u ↦
      .ok ((u.1, u.2.statements), s) := by
  simp [nest]

theorem run_otherwise (body : Recorder Unit) (s : Scope) :
    (otherwise body).run s = body.run (.empty (s.depth + 1)) >>= fun u ↦
      .ok (.always u.2.statements, s) := by
  simp [otherwise, run_nest]

theorem run_otherwiseWhen (condition : Recorder Term) (body : Recorder Unit)
    (rest : Recorder Otherwise) (s : Scope) :
    (otherwiseWhen condition body rest).run s = condition.run s >>= fun c ↦
      body.run (.empty (c.2.depth + 1)) >>= fun u ↦ rest.run c.2 >>= fun o ↦
        .ok (.test c.1.expr u.2.statements o.1, o.2) := by
  simp only [otherwiseWhen, StateT.run_bind, run_nest, bind_assoc, ok_bind]
  rfl

theorem run_when (condition : Term) (body : Recorder Unit) (rest : Recorder Otherwise)
    (s : Scope) :
    (when condition body rest).run s = body.run (.empty (s.depth + 1)) >>= fun u ↦
      rest.run s >>= fun o ↦ .ok ((), o.2.push (.branch condition.expr u.2.statements o.1)) := by
  simp only [when, StateT.run_bind, run_nest, bind_assoc, ok_bind]
  rfl

theorem run_loopWhile (condition : Term) (body : Recorder Unit) (s : Scope) :
    (loopWhile condition body).run s = body.run (.empty (s.depth + 1)) >>= fun u ↦
      .ok ((), s.push (.whileLoop condition.expr u.2.statements)) := by
  simp only [loopWhile, StateT.run_bind, run_nest, bind_assoc, ok_bind]
  rfl

theorem run_loopFor (init : Term) (condition next : Term → Recorder Term)
    (body : Term → Recorder Unit) (s : Scope) :
    (loopFor init condition next body).run s =
      let h := Handle.localVar (s.depth + 1) 0
      let counter := Term.ofHandle init.type h
      (condition counter).run ⟨s.depth + 1, 1, []⟩ >>= fun c ↦ (next counter).run c.2 >>= fun n ↦
        (body counter).run n.2 >>= fun u ↦
          .ok ((), s.push (.forLoop init.type h init.expr c.1.expr n.1.expr u.2.statements)) := by
  simp only [loopFor, StateT.run_bind, run_nest, bind_assoc]
  rfl

theorem run_ignoring {r : Recorder α} {s s' : Scope} {a : α} (h : r.run s = .ok (a, s')) :
    (do _ ← r : Recorder Unit).run s = .ok ((), s') := by
  rw [StateT.run_bind, h]
  rfl

end Recorder

/-! ### Substitution -/

mutual

/-- Replace the handles of an expression. -/
def Expr.subst (σ : Handle → Expr) : Expr → Expr
  | .lit v => .lit v
  | .array t items => .array t (Expr.substAll σ items)
  | .var h => σ h
  | .unary op a => .unary op (Expr.subst σ a)
  | .binary op a b => .binary op (Expr.subst σ a) (Expr.subst σ b)
  | .call callee args => .call callee (Expr.substAll σ args)
  | .swizzle a channels => .swizzle (Expr.subst σ a) channels
  | .field a name => .field (Expr.subst σ a) name
  | .index a i => .index (Expr.subst σ a) (Expr.subst σ i)

def Expr.substAll (σ : Handle → Expr) : List Expr → List Expr
  | [] => []
  | e :: es => Expr.subst σ e :: Expr.substAll σ es

end

mutual

theorem Expr.subst_var {σ : Handle → Expr} (h : ∀ v, σ v = .var v) : ∀ e : Expr, e.subst σ = e
  | .lit _ => rfl
  | .array _ items => by rw [Expr.subst, Expr.substAll_var h items]
  | .var v => h v
  | .unary _ a => by rw [Expr.subst, Expr.subst_var h a]
  | .binary _ a b => by rw [Expr.subst, Expr.subst_var h a, Expr.subst_var h b]
  | .call _ args => by rw [Expr.subst, Expr.substAll_var h args]
  | .swizzle a _ => by rw [Expr.subst, Expr.subst_var h a]
  | .field a _ => by rw [Expr.subst, Expr.subst_var h a]
  | .index a i => by rw [Expr.subst, Expr.subst_var h a, Expr.subst_var h i]

theorem Expr.substAll_var {σ : Handle → Expr} (h : ∀ v, σ v = .var v) :
    ∀ es : List Expr, Expr.substAll σ es = es
  | [] => rfl
  | e :: es => by rw [Expr.substAll, Expr.subst_var h e, Expr.substAll_var h es]

end

/-- What the names of a script stand for, the innermost first. -/
abbrev Bindings := List (Handle × Expr)

namespace Bindings

def get (b : Bindings) (v : Handle) : Expr :=
  (b.lookup v).getD (.var v)

theorem get_cons (b : Bindings) (w v : Handle) (e : Expr) :
    get ((w, e) :: b) v = if v = w then e else b.get v := by
  by_cases h : v = w
  · simp [get, h]
  · have hbeq : (v == w) = false := beq_false_of_ne h
    simp [get, List.lookup_cons, h, hbeq]

theorem get_of_notMem {b : Bindings} {v : Handle} (h : v ∉ b.map Prod.fst) :
    b.get v = .var v := by
  induction b with
  | nil => rfl
  | cons p b ih =>
      have hw : v ≠ p.1 := List.ne_of_not_mem_cons h
      rw [get_cons, if_neg hw, ih (List.not_mem_of_not_mem_cons h)]

def expr (b : Bindings) (e : Expr) : Expr :=
  e.subst b.get

def term (b : Bindings) (type : Ty) (e : Expr) : Term :=
  ⟨type, b.expr e⟩

/-- A name for a returned term. -/
def bind (b : Bindings) (v : Handle) (t : Term) : Bindings :=
  (v, t.expr) :: b

/-- The names of the arguments of a helper. -/
def arguments (params : List Ty) : Bindings :=
  (Program.arguments params).mapIdx fun i t ↦ (.argument i, t.expr)

/-- Whether every name stands for itself. -/
def Identity (b : Bindings) : Prop :=
  ∀ p ∈ b, p.2 = .var p.1

theorem Identity.get {b : Bindings} (h : b.Identity) (v : Handle) : b.get v = .var v := by
  induction b with
  | nil => rfl
  | cons p b ih =>
      obtain ⟨hp, hb⟩ := List.forall_mem_cons.mp h
      rw [get_cons]
      split
      · next hv => rw [hv, hp]
      · exact ih hb

theorem Identity.expr {b : Bindings} (h : b.Identity) (e : Expr) : b.expr e = e :=
  e.subst_var h.get

theorem Identity.bind {b : Bindings} (h : b.Identity) (type : Ty) (v : Handle) :
    (b.bind v (.ofHandle type v)).Identity :=
  List.forall_mem_cons.mpr ⟨rfl, h⟩

theorem identity_arguments (params : List Ty) : (arguments params).Identity := by
  intro p hp
  rw [arguments, Program.arguments, List.mapIdx_mapIdx] at hp
  obtain ⟨i, hi, rfl⟩ := List.mem_mapIdx.mp hp
  rfl

end Bindings

/-! ### Performance -/

mutual

/-- Make the call for a statement and return what the names stand for after it. -/
def Statement.perform (b : Bindings) : Statement → Recorder Bindings
  | .declare type v none => do
    return b.bind v (← Recorder.declare type)
  | .declare type v (some e) => do
    return b.bind v (← Recorder.var (b.term type e))
  | .branch condition body rest => do
    Recorder.when (b.term .bool condition) (do _ ← Block.perform b body) (Otherwise.perform b rest)
    return b
  | .forLoop type v init condition next body => do
    Recorder.loopFor (b.term type init)
      (fun i ↦ return (b.bind v i).term .bool condition)
      (fun i ↦ return (b.bind v i).term type next)
      (fun i ↦ do _ ← Block.perform (b.bind v i) body)
    return b
  | .whileLoop condition body => do
    Recorder.loopWhile (b.term .bool condition) (do _ ← Block.perform b body)
    return b
  | .assign target op value => do
    Recorder.emit (.assign (b.expr target) op (b.expr value))
    return b
  | .leave value => do
    Recorder.emit (.leave (value.map b.expr))
    return b
  | s => do
    Recorder.emit s
    return b

def Block.perform (b : Bindings) : Block → Recorder Bindings
  | [] => return b
  | s :: ss => do Block.perform (← Statement.perform b s) ss

def Otherwise.perform (b : Bindings) : Otherwise → Recorder Otherwise
  | .nothing => Recorder.otherwiseNothing
  | .always body => Recorder.otherwise (do _ ← Block.perform b body)
  | .test condition body rest =>
    Recorder.otherwiseWhen (return b.term .bool condition) (do _ ← Block.perform b body)
      (Otherwise.perform b rest)

end

section Runs

variable {b b' : Bindings} {s inner : Scope} {condition : Expr} {body : Block}

theorem Statement.run_branch {rest o : Otherwise}
    (hbody : (body.perform b).run (.empty (s.depth + 1)) = .ok (b', inner))
    (hrest : (rest.perform b).run s = .ok (o, s)) :
    ((Statement.branch condition body rest).perform b).run s =
      .ok (b, s.push (.branch (b.expr condition) inner.statements o)) := by
  rw [Statement.perform, StateT.run_bind, Recorder.run_when, Recorder.run_ignoring hbody, ok_bind,
    hrest]
  rfl

theorem Statement.run_whileLoop
    (hbody : (body.perform b).run (.empty (s.depth + 1)) = .ok (b', inner)) :
    ((Statement.whileLoop condition body).perform b).run s =
      .ok (b, s.push (.whileLoop (b.expr condition) inner.statements)) := by
  rw [Statement.perform, StateT.run_bind, Recorder.run_loopWhile, Recorder.run_ignoring hbody]
  rfl

/-- The body of a loop is performed in a scope that has the counter already. -/
theorem Statement.run_forLoop {type : Ty} {v : Handle} {init next : Expr}
    (hbody : (body.perform (b.bind v (.ofHandle type (.localVar (s.depth + 1) 0)))).run
      ⟨s.depth + 1, 1, []⟩ = .ok (b', inner)) :
    ((Statement.forLoop type v init condition next body).perform b).run s =
      .ok (b, s.push (.forLoop type (.localVar (s.depth + 1) 0) (b.expr init)
        ((b.bind v (.ofHandle type (.localVar (s.depth + 1) 0))).expr condition)
        ((b.bind v (.ofHandle type (.localVar (s.depth + 1) 0))).expr next)
        inner.statements)) := by
  rw [Statement.perform, StateT.run_bind, Recorder.run_loopFor]
  refine bind_eq_ok.mpr ⟨((), s.push _), ?_, rfl⟩
  refine bind_eq_ok.mpr ⟨_, rfl, bind_eq_ok.mpr ⟨_, rfl, ?_⟩⟩
  exact bind_eq_ok.mpr ⟨_, Recorder.run_ignoring hbody, rfl⟩

theorem Otherwise.run_always
    (hbody : (body.perform b).run (.empty (s.depth + 1)) = .ok (b', inner)) :
    ((Otherwise.always body).perform b).run s = .ok (.always inner.statements, s) := by
  rw [Otherwise.perform, Recorder.run_otherwise, Recorder.run_ignoring hbody]
  rfl

theorem Otherwise.run_test {rest o : Otherwise}
    (hbody : (body.perform b).run (.empty (s.depth + 1)) = .ok (b', inner))
    (hrest : (rest.perform b).run s = .ok (o, s)) :
    ((Otherwise.test condition body rest).perform b).run s =
      .ok (.test (b.expr condition) inner.statements o, s) := by
  rw [Otherwise.perform, Recorder.run_otherwiseWhen, StateT.run_pure, pure_eq_ok, ok_bind,
    Recorder.run_ignoring hbody, ok_bind, hrest]
  rfl

end Runs

namespace Block

theorem perform_append (b : Bindings) (script script' : Block) :
    perform b (script ++ script') = perform b script >>= fun b' ↦ perform b' script' := by
  induction script generalizing b with
  | nil => simp [perform]
  | cons s script ih => simp [perform, ih]

/-- The body of an entry point. -/
def recorder (script : Block) : Recorder Unit := do
  _ ← script.perform []

/-- The body of a helper function, with the value that it returns at the end. -/
def helperRecorder (script : Block) (params : List Ty) (result : Option Term) :
    Recorder (Option Term) := do
  let b ← script.perform (.arguments params)
  return result.map fun r ↦ b.term r.type r.expr

/-- The script of a helper with its result returned at the end. -/
def returning (script : Block) (result : Option Term) : Block :=
  script ++ result.toList.map fun r ↦ .leave (some r.expr)

end Block

end Shading
