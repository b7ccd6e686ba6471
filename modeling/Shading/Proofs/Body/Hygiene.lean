import Mathlib.Data.List.Basic
import Shading.Proofs.Body.Script

/-!
# Variables that hide nothing

A scope numbers its variables, and a nested one has a greater depth.  So a new variable is different
from every variable that is visible where it is declared, loop counters included, however the calls
that record a body are put together.  Different handles have different names.
-/

namespace Shading

/-! ### Names -/

namespace Handle

/-- Constants, arguments and variables, which are told apart by numbers. -/
def Numbered : Handle → Prop
  | constant _ | argument _ | localVar _ _ => True
  | _ => False

theorem toDigits_inj {m n : Nat} (h : Nat.toDigits 10 m = Nat.toDigits 10 n) : m = n := by
  rw [← Nat.ofDigitChars_ten_toDigits (n := m), h, Nat.ofDigitChars_ten_toDigits]

theorem underscore_notMem_toDigits (n : Nat) : '_' ∉ Nat.toDigits 10 n := by
  intro h
  have hdigit := Nat.isDigit_of_mem_toDigits (Nat.succ_pos 9) (Nat.le_refl 10) h
  exact absurd hdigit (by decide)

theorem toList_text_constant (i : Nat) :
    (constant i).text.toList = 'g' :: 'l' :: 'o' :: 'b' :: '_' :: Nat.toDigits 10 i := by
  simp [text]

theorem toList_text_argument (i : Nat) :
    (argument i).text.toList = 'a' :: 'r' :: 'g' :: '_' :: Nat.toDigits 10 i := by
  simp [text]

theorem toList_text_localVar (d i : Nat) : (localVar d i).text.toList =
    'v' :: 'a' :: 'r' :: '_' :: (Nat.toDigits 10 d ++ '_' :: Nat.toDigits 10 i) := by
  simp [text]

theorem Numbered.eq_of_text {g h : Handle} (hg : g.Numbered) (hh : h.Numbered)
    (htext : g.text = h.text) : g = h := by
  have hlist := congrArg String.toList htext
  cases g <;> cases hg <;> cases h <;> cases hh <;>
    simp only [toList_text_constant, toList_text_argument, toList_text_localVar, List.cons.injEq,
      Char.reduceEq, true_and, false_and] at hlist
  · rw [toDigits_inj hlist]
  · rw [toDigits_inj hlist]
  · obtain ⟨hdepth, hindex⟩ := (List.append_cons_inj_of_notMem
      (underscore_notMem_toDigits _) (underscore_notMem_toDigits _)).mp hlist
    rw [toDigits_inj hdepth, toDigits_inj hindex.2]

/-- Variables of a body. -/
def IsLocal : Handle → Prop
  | localVar _ _ => True
  | _ => False

end Handle

/-! ### Shadowing -/

/-- The variables that a statement declares for the statements after it. -/
def Statement.declares : Statement → List Handle
  | .declare _ h _ => [h]
  | _ => []

mutual

/-- Every variable that is declared in the statement is new: it differs from the visible ones. -/
def Statement.NoShadowing (visible : List Handle) : Statement → Prop
  | .declare _ h _ => h.IsLocal ∧ h ∉ visible
  | .branch _ body rest => Block.NoShadowing visible body ∧ Otherwise.NoShadowing visible rest
  | .forLoop _ h _ _ _ body => h.IsLocal ∧ h ∉ visible ∧ Block.NoShadowing (h :: visible) body
  | .whileLoop _ body => Block.NoShadowing visible body
  | _ => True

/-- Every variable of the block is new.  It is visible up to the end of the block. -/
def Block.NoShadowing (visible : List Handle) : Block → Prop
  | [] => True
  | s :: ss => Statement.NoShadowing visible s ∧ Block.NoShadowing (s.declares ++ visible) ss

def Otherwise.NoShadowing (visible : List Handle) : Otherwise → Prop
  | .nothing => True
  | .always body => Block.NoShadowing visible body
  | .test _ body rest => Block.NoShadowing visible body ∧ Otherwise.NoShadowing visible rest

end

/-- A statement that has neither variables nor a body of its own. -/
def Statement.Plain : Statement → Prop
  | .assign .. | .leave _ | .skip | .stop | .discard | .raw .. => True
  | _ => False

theorem Statement.Plain.declares {s : Statement} (h : s.Plain) : s.declares = [] := by
  cases s with
  | declare => cases h
  | _ => rfl

theorem Statement.Plain.noShadowing {s : Statement} (h : s.Plain) (visible : List Handle) :
    s.NoShadowing visible := by
  cases s with
  | declare | branch | forLoop | whileLoop => cases h
  | _ => trivial

theorem Statement.Plain.perform {s : Statement} (h : s.Plain) {b : Bindings} (hb : b.Identity)
    (scope : Scope) : (s.perform b).run scope = .ok (b, scope.push s) := by
  cases s with
  | declare | branch | forLoop | whileLoop => cases h
  | assign target op value =>
      rw [Statement.perform, hb.expr, hb.expr]
      rfl
  | leave value =>
      have hvalue : value.map b.expr = value := by cases value <;> simp [hb.expr]
      rw [Statement.perform, hvalue]
      rfl
  | _ => rfl

namespace Block

/-- What is visible at the end of a block. -/
def visibleAfter (visible : List Handle) (b : Block) : List Handle :=
  b.foldl (fun v s ↦ s.declares ++ v) visible

theorem noShadowing_append (visible : List Handle) (b b' : Block) :
    NoShadowing visible (b ++ b') ↔
      NoShadowing visible b ∧ NoShadowing (visibleAfter visible b) b' := by
  induction b generalizing visible with
  | nil => simp [NoShadowing, visibleAfter]
  | cons s b ih => simp [NoShadowing, visibleAfter, ih, and_assoc]

theorem noShadowing_singleton (visible : List Handle) (s : Statement) :
    NoShadowing visible [s] ↔ s.NoShadowing visible := by
  simp [NoShadowing]

end Block

/-! ### Growth of a scope -/

namespace Scope

/-- Whether a variable may be visible in the scope: it belongs to an enclosing scope or is an
earlier one of the scope itself. -/
def Knows (s : Scope) : Handle → Prop
  | .localVar d i => d < s.depth ∨ d = s.depth ∧ i < s.declared
  | _ => True

theorem not_knows_next (s : Scope) : ¬ s.Knows (.localVar s.depth s.declared) := by
  simp only [Knows]
  omega

theorem Knows.next {s : Scope} {h : Handle} (hh : s.Knows h) (statements : Block) :
    Knows ⟨s.depth, s.declared + 1, statements⟩ h := by
  cases h with
  | localVar d i =>
      simp only [Knows] at hh ⊢
      omega
  | _ => trivial

/-- All that is visible in a scope may be visible in one that is nested in it. -/
theorem Knows.nested {s : Scope} {h : Handle} (hh : s.Knows h) (declared : Nat)
    (statements : Block) : Knows ⟨s.depth + 1, declared, statements⟩ h := by
  cases h with
  | localVar d i =>
      simp only [Knows] at hh ⊢
      omega
  | _ => trivial

/-- Statements are added.  All their variables are new, and they are recorded in the same way when
they are performed as a script. -/
def Grows (s s' : Scope) : Prop :=
  ∃ added, s'.statements = s.statements ++ added ∧
    (∀ visible, (∀ h ∈ visible, s.Knows h) →
      added.NoShadowing visible ∧ ∀ h ∈ added.visibleAfter visible, s'.Knows h) ∧
    ∀ b : Bindings, b.Identity → ∃ b' : Bindings, b'.Identity ∧
      (added.perform b).run s = .ok (b', s')

namespace Grows

variable {s s' s'' inner : Scope}

theorem refl (s : Scope) : s.Grows s :=
  ⟨[], (List.append_nil _).symm, fun _ hvisible ↦ ⟨trivial, hvisible⟩, fun b hb ↦ ⟨b, hb, rfl⟩⟩

theorem trans (h : s.Grows s') (h' : s'.Grows s'') : s.Grows s'' := by
  obtain ⟨added, hadded, hnew, hreplay⟩ := h
  obtain ⟨added', hadded', hnew', hreplay'⟩ := h'
  refine ⟨added ++ added', by rw [hadded', hadded, List.append_assoc], ?_, ?_⟩
  · intro visible hvisible
    obtain ⟨hblock, hknown⟩ := hnew visible hvisible
    obtain ⟨hblock', hknown'⟩ := hnew' _ hknown
    refine ⟨(Block.noShadowing_append _ _ _).mpr ⟨hblock, hblock'⟩, ?_⟩
    rwa [Block.visibleAfter, List.foldl_append]
  · intro b hb
    obtain ⟨b', hb', hrun⟩ := hreplay b hb
    obtain ⟨b'', hb'', hrun'⟩ := hreplay' b' hb'
    refine ⟨b'', hb'', ?_⟩
    rw [Block.perform_append]
    exact bind_eq_ok.mpr ⟨_, hrun, hrun'⟩

/-- A single statement. -/
theorem statement {statement : Statement} {declared : Nat}
    (hnew : ∀ visible, (∀ h ∈ visible, s.Knows h) → statement.NoShadowing visible ∧
      ∀ h ∈ statement.declares ++ visible, Knows ⟨s.depth, declared, []⟩ h)
    (hreplay : ∀ b : Bindings, b.Identity → ∃ b' : Bindings, b'.Identity ∧
      (statement.perform b).run s =
        .ok (b', ⟨s.depth, declared, s.statements ++ [statement]⟩)) :
    s.Grows ⟨s.depth, declared, s.statements ++ [statement]⟩ := by
  refine ⟨[statement], rfl, fun visible hvisible ↦ ?_, fun b hb ↦ ?_⟩
  · obtain ⟨hstatement, hknown⟩ := hnew visible hvisible
    exact ⟨(Block.noShadowing_singleton _ _).mpr hstatement, hknown⟩
  · obtain ⟨b', hb', hrun⟩ := hreplay b hb
    exact ⟨b', hb', bind_eq_ok.mpr ⟨_, hrun, rfl⟩⟩

/-- A statement that declares nothing for those after it. -/
theorem push {statement : Statement} (hdeclares : statement.declares = [])
    (hnew : ∀ visible, (∀ h ∈ visible, s.Knows h) → statement.NoShadowing visible)
    (hreplay : ∀ b : Bindings, b.Identity →
      (statement.perform b).run s = .ok (b, s.push statement)) :
    s.Grows (s.push statement) := by
  apply Grows.statement
  · intro visible hvisible
    rw [hdeclares]
    exact ⟨hnew visible hvisible, hvisible⟩
  · exact fun b hb ↦ ⟨b, hb, hreplay b hb⟩

theorem declare (type : Ty) (init : Option Expr) :
    s.Grows ⟨s.depth, s.declared + 1,
      s.statements ++ [.declare type (.localVar s.depth s.declared) init]⟩ := by
  apply Grows.statement
  · intro visible hvisible
    refine ⟨⟨trivial, fun hmem ↦ s.not_knows_next (hvisible _ hmem)⟩, ?_⟩
    refine List.forall_mem_cons.mpr ⟨.inr ⟨rfl, Nat.lt_succ_self _⟩, ?_⟩
    exact fun h hh ↦ (hvisible h hh).next []
  · intro b hb
    refine ⟨_, hb.bind type (.localVar s.depth s.declared), ?_⟩
    cases init with
    | none => rfl
    | some e =>
        have he : b.term type e = ⟨type, e⟩ := by rw [Bindings.term, hb.expr]
        rw [Statement.perform, he]
        rfl

variable {depth declared : Nat}

/-- All that is recorded from the start of a scope is new to what is visible there. -/
theorem noShadowing (h : Grows ⟨depth, declared, []⟩ inner) {visible : List Handle}
    (hvisible : ∀ h ∈ visible, Knows ⟨depth, declared, []⟩ h) :
    inner.statements.NoShadowing visible := by
  obtain ⟨added, hadded, hnew, -⟩ := h
  rw [hadded]
  exact (hnew visible hvisible).1

/-- All that is recorded from the start of a scope is recorded again when it is performed. -/
theorem replay (h : Grows ⟨depth, declared, []⟩ inner) {b : Bindings} (hb : b.Identity) :
    ∃ b' : Bindings, b'.Identity ∧
      (inner.statements.perform b).run ⟨depth, declared, []⟩ = .ok (b', inner) := by
  obtain ⟨added, hadded, -, hreplay⟩ := h
  rw [hadded]
  exact hreplay b hb

end Grows

end Scope

/-! ### Recorded bodies -/

namespace Recorder

variable {α : Type}

/-- A computation beside the recording, which leaves the scope alone. -/
def Quiet (r : Recorder α) : Prop :=
  ∀ s a s', r.run s = .ok (a, s') → s' = s

theorem quiet_pure (a : α) : Quiet (pure a) := by
  intro s a' s' h
  cases h
  rfl

mutual

/-- A body that is written with the calls that record statements, in any order and nested in any
way, where each may depend on what the ones before it returned. -/
inductive Written : {α : Type} → Recorder α → Prop
  | pure {α : Type} (a : α) : Written (pure a)
  | throw {α : Type} (e : Error) : Written (throw e : Recorder α)
  | bind {α β : Type} {r : Recorder α} {k : α → Recorder β} (hr : Written r)
      (hk : ∀ a, Written (k a)) : Written (r >>= k)
  | var (value : Term) : Written (var value)
  | declare (type : Ty) : Written (declare type)
  | plain {statement : Statement} (h : statement.Plain) : Written (emit statement)
  | when (condition : Term) {body : Recorder Unit} {rest : Recorder Otherwise}
      (hbody : Written body) (hrest : WrittenRest rest) : Written (when condition body rest)
  | loopWhile (condition : Term) {body : Recorder Unit} (hbody : Written body) :
      Written (loopWhile condition body)
  | loopFor (init : Term) {condition next : Term → Recorder Term} {body : Term → Recorder Unit}
      (hcondition : ∀ i, Quiet (condition i)) (hnext : ∀ i, Quiet (next i))
      (hbody : ∀ i, Written (body i)) : Written (loopFor init condition next body)

/-- The alternatives of a conditional. -/
inductive WrittenRest : Recorder Otherwise → Prop
  | nothing : WrittenRest otherwiseNothing
  | always {body : Recorder Unit} (hbody : Written body) : WrittenRest (otherwise body)
  | test {condition : Recorder Term} {body : Recorder Unit} {rest : Recorder Otherwise}
      (hcondition : Quiet condition) (hbody : Written body) (hrest : WrittenRest rest) :
      WrittenRest (otherwiseWhen condition body rest)

end

theorem knows_all_nested {s : Scope} {visible : List Handle} (h : ∀ x ∈ visible, s.Knows x) :
    ∀ x ∈ visible, (Scope.empty (s.depth + 1)).Knows x :=
  fun x hx ↦ (h x hx).nested 0 []

mutual

-- The induction is on how the body is written.  A nested body starts with an empty scope, in which
-- all that is visible outside is known.
theorem Written.grows : ∀ {α : Type} {r : Recorder α}, Written r →
    ∀ {s : Scope} {a : α} {s' : Scope}, r.run s = .ok (a, s') → s.Grows s'
  | _, _, .pure _, _, _, _, h => by
      cases h
      exact .refl _
  | _, _, .throw _, _, _, _, h => by cases h
  | _, _, .bind hr hk, _, _, _, h => by
      obtain ⟨⟨a, s'⟩, hrun, h⟩ := bind_eq_ok.mp h
      exact (hr.grows hrun).trans ((hk a).grows h)
  | _, _, .var value, _, _, _, h => by
      cases h
      exact .declare _ _
  | _, _, .declare type, _, _, _, h => by
      cases h
      exact .declare _ _
  | _, _, .plain hplain, s, _, _, h => by
      cases h
      exact .push hplain.declares (fun visible _ ↦ hplain.noShadowing visible)
        fun b hb ↦ hplain.perform hb s
  | _, _, .when condition hbody hrest, s, _, _, h => by
      rw [run_when] at h
      obtain ⟨⟨u, inner⟩, hrun, h⟩ := bind_eq_ok.mp h
      obtain ⟨⟨o, s'⟩, hother, h⟩ := bind_eq_ok.mp h
      cases h
      obtain ⟨rfl, hnew, hreplay⟩ := hrest.grows hother
      refine .push rfl (fun visible hvisible ↦ ⟨?_, hnew visible hvisible⟩) fun b hb ↦ ?_
      · exact (hbody.grows hrun).noShadowing (knows_all_nested hvisible)
      · obtain ⟨b', -, hinner⟩ := (hbody.grows hrun).replay hb
        rw [Statement.run_branch hinner (hreplay b hb), hb.expr]
  | _, _, .loopWhile condition hbody, s, _, _, h => by
      rw [run_loopWhile] at h
      obtain ⟨⟨u, inner⟩, hrun, h⟩ := bind_eq_ok.mp h
      cases h
      refine .push rfl (fun visible hvisible ↦ ?_) fun b hb ↦ ?_
      · exact (hbody.grows hrun).noShadowing (knows_all_nested hvisible)
      · obtain ⟨b', -, hinner⟩ := (hbody.grows hrun).replay hb
        rw [Statement.run_whileLoop hinner, hb.expr]
  | _, _, .loopFor init hcondition hnext hbody, s, _, _, h => by
      rw [run_loopFor] at h
      obtain ⟨⟨c, s₁⟩, hc, h⟩ := bind_eq_ok.mp h
      obtain ⟨⟨n, s₂⟩, hn, h⟩ := bind_eq_ok.mp h
      obtain ⟨⟨u, inner⟩, hrun, h⟩ := bind_eq_ok.mp h
      cases h
      cases hcondition _ _ _ _ hc
      cases hnext _ _ _ _ hn
      refine .push rfl (fun visible hvisible ↦ ⟨trivial, ?_, ?_⟩) fun b hb ↦ ?_
      · -- The counter belongs to the scope of the loop, and nothing visible is that deep.
        intro hmem
        have hknown := hvisible _ hmem
        simp only [Scope.Knows] at hknown
        omega
      · apply ((hbody _).grows hrun).noShadowing
        refine List.forall_mem_cons.mpr ⟨.inr ⟨rfl, Nat.zero_lt_one⟩, ?_⟩
        exact fun x hx ↦ (hvisible x hx).nested 1 []
      · have hloop := hb.bind init.type (.localVar (s.depth + 1) 0)
        obtain ⟨b', -, hinner⟩ := ((hbody _).grows hrun).replay hloop
        rw [Statement.run_forLoop hinner, hb.expr, hloop.expr, hloop.expr]

theorem WrittenRest.grows : ∀ {r : Recorder Otherwise}, WrittenRest r →
    ∀ {s : Scope} {o : Otherwise} {s' : Scope}, r.run s = .ok (o, s') →
      s' = s ∧ (∀ visible, (∀ x ∈ visible, s.Knows x) → o.NoShadowing visible) ∧
        ∀ b : Bindings, b.Identity → (o.perform b).run s = .ok (o, s)
  | _, .nothing, _, _, _, h => by
      cases h
      exact ⟨rfl, fun _ _ ↦ trivial, fun _ _ ↦ rfl⟩
  | _, .always hbody, _, _, _, h => by
      rw [run_otherwise] at h
      obtain ⟨⟨u, inner⟩, hrun, h⟩ := bind_eq_ok.mp h
      cases h
      refine ⟨rfl, fun visible hvisible ↦ ?_, fun b hb ↦ ?_⟩
      · exact (hbody.grows hrun).noShadowing (knows_all_nested hvisible)
      · obtain ⟨b', -, hinner⟩ := (hbody.grows hrun).replay hb
        exact Otherwise.run_always hinner
  | _, .test hcondition hbody hrest, s, _, _, h => by
      rw [run_otherwiseWhen] at h
      obtain ⟨⟨c, s₁⟩, hc, h⟩ := bind_eq_ok.mp h
      cases hcondition _ _ _ hc
      obtain ⟨⟨u, inner⟩, hrun, h⟩ := bind_eq_ok.mp h
      obtain ⟨⟨o, s₂⟩, hother, h⟩ := bind_eq_ok.mp h
      cases h
      obtain ⟨rfl, hnew, hreplay⟩ := hrest.grows hother
      refine ⟨rfl, fun visible hvisible ↦ ⟨?_, hnew visible hvisible⟩, fun b hb ↦ ?_⟩
      · exact (hbody.grows hrun).noShadowing (knows_all_nested hvisible)
      · obtain ⟨b', -, hinner⟩ := (hbody.grows hrun).replay hb
        rw [Otherwise.run_test hinner (hreplay b hb), hb.expr]

end

/-- No variable of a written body hides another one. -/
theorem Written.noShadowing {r : Recorder α} (h : Written r) {a : α} {block : Block}
    (hrecord : r.record = .ok (a, block)) : block.NoShadowing [] := by
  obtain ⟨⟨a, s⟩, hrun, hblock⟩ := bind_eq_ok.mp hrecord
  cases hblock
  exact (h.grows hrun).noShadowing (by simp)

/-- A written body is recorded from a script too, namely from its own statements. -/
theorem Written.record_recorder {r : Recorder Unit} (h : Written r) {block : Block}
    (hrecord : r.record = .ok ((), block)) : block.recorder.record = .ok ((), block) := by
  obtain ⟨⟨a, s⟩, hrun, hblock⟩ := bind_eq_ok.mp hrecord
  cases hblock
  obtain ⟨b, -, hreplay⟩ := (h.grows hrun).replay (b := []) (by simp [Bindings.Identity])
  exact bind_eq_ok.mpr ⟨_, run_ignoring hreplay, rfl⟩

theorem Written.record_helperRecorder {r : Recorder (Option Term)} (h : Written r)
    {result : Option Term} {block : Block} (hrecord : r.record = .ok (result, block))
    (params : List Ty) :
    (block.helperRecorder params result).record = .ok (result, block) := by
  obtain ⟨⟨a, s⟩, hrun, hblock⟩ := bind_eq_ok.mp hrecord
  obtain ⟨rfl, rfl⟩ := Prod.mk.inj (Except.ok.inj hblock)
  obtain ⟨b, hb, hreplay⟩ := (h.grows hrun).replay (Bindings.identity_arguments params)
  have hresult : a.map (fun r ↦ b.term r.type r.expr) = a := by
    cases a with
    | none => rfl
    | some r => simp [Bindings.term, hb.expr]
  have hvalue : (Block.helperRecorder s.statements params a).run (.empty 0) = .ok (a, s) := by
    refine bind_eq_ok.mpr ⟨(b, s), hreplay, ?_⟩
    exact congrArg (fun value ↦ Except.ok (value, s)) hresult
  exact bind_eq_ok.mpr ⟨_, hvalue, rfl⟩

end Recorder

/-! ### Scripts are written -/

open Recorder (Written WrittenRest quiet_pure)

mutual

theorem Statement.written_perform (b : Bindings) : ∀ s : Statement, Written (s.perform b)
  | .declare type _ none => .bind (.declare type) fun _ ↦ .pure _
  | .declare _ _ (some _) => .bind (.var _) fun _ ↦ .pure _
  | .branch _ body rest =>
    .bind (.when _ (.bind (Block.written_perform b body) fun _ ↦ .pure _)
      (Otherwise.written_perform b rest)) fun _ ↦ .pure _
  | .forLoop _ v _ _ _ body =>
    .bind (.loopFor _ (fun _ ↦ quiet_pure _) (fun _ ↦ quiet_pure _) fun i ↦
      .bind (Block.written_perform (b.bind v i) body) fun _ ↦ .pure _) fun _ ↦ .pure _
  | .whileLoop _ body =>
    .bind (.loopWhile _ (.bind (Block.written_perform b body) fun _ ↦ .pure _)) fun _ ↦ .pure _
  | .assign .. | .leave _ | .skip | .stop | .discard | .raw .. =>
    .bind (.plain trivial) fun _ ↦ .pure _

theorem Block.written_perform (b : Bindings) : ∀ script : Block, Written (script.perform b)
  | [] => .pure b
  | s :: ss => .bind (Statement.written_perform b s) fun b' ↦ Block.written_perform b' ss

theorem Otherwise.written_perform (b : Bindings) : ∀ o : Otherwise, WrittenRest (o.perform b)
  | .nothing => .nothing
  | .always body => .always (.bind (Block.written_perform b body) fun _ ↦ .pure _)
  | .test _ body rest =>
    .test (quiet_pure _) (.bind (Block.written_perform b body) fun _ ↦ .pure _)
      (Otherwise.written_perform b rest)

end

theorem Block.written_recorder (script : Block) : Written script.recorder :=
  .bind (written_perform [] script) fun _ ↦ .pure _

theorem Block.written_helperRecorder (script : Block) (params : List Ty) (result : Option Term) :
    Written (script.helperRecorder params result) :=
  .bind (written_perform _ script) fun _ ↦ .pure _

end Shading
