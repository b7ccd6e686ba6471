import Mathlib.Data.List.Basic
import Shading.Proofs.Body.Hygiene
import Shading.Proofs.Code.Leaving

/-!
# Names that lead back to their declarations

The code of a body that was recorded from a script has the declarations of the script, in the same
order and nested in the same way.  Under lexical scoping, which takes the innermost declaration of a
name, every name of a variable leads back to the declaration that the script means.
-/

namespace Shading.Code

/-! ### Scoping -/

/-- The declarations in scope, the innermost first.  Each has the variable of a script and its name
in the code. -/
abbrev Env := List (Handle × String)

/-- The parameters of a function, as a script calls them and by their names. -/
def Function.env (f : Function) : Env :=
  f.params.mapIdx fun i p ↦ (.argument i, p.2)

/-- The innermost declaration of the name is the innermost one of the variable. -/
def Env.Resolves (env : Env) (v : Handle) (name : String) : Prop :=
  v ∈ env.map Prod.fst ∧ (env.map Prod.snd).idxOf name = (env.map Prod.fst).idxOf v

/-- The code for an expression of a script.  A variable in scope is written as a name that leads to
its declaration, and everything else as it is. -/
def Target.Means (t : Target) (env : Env) (e : Shading.Expr) (code : Expr) : Prop :=
  ∃ σ : Handle → Shading.Expr, t.expr (e.subst σ) = .ok code ∧ ∀ v,
    if v ∈ env.map Prod.fst then ∃ name, t.expr (σ v) = .ok (.word name) ∧ env.Resolves v name
    else σ v = .var v

mutual

/-- The code for the statements of a script.  A declaration is in scope up to the end of its block,
and a loop counter in the loop. -/
inductive Mirrors (t : Target) : Env → Block → List Statement → Prop
  | nil {env : Env} : Mirrors t env [] []
  | declare {env : Env} {type : Ty} {type' : TypeName} {v : Handle} {name : String}
      {init : Option Shading.Expr} {init' : Option Expr} {ss : Block} {cs : List Statement}
      (htype : t.type type = .ok type') (hinit : Option.Rel (t.Means env) init init')
      (hname : name ∉ env.map Prod.snd) (hrest : Mirrors t ((v, name) :: env) ss cs) :
      Mirrors t env (.declare type v init :: ss) (.declare type' name init' :: cs)
  | assign {env : Env} {target value : Shading.Expr} {target' value' : Expr}
      {op : Option UpdateOp} {ss : Block} {cs : List Statement}
      (htarget : t.Means env target target') (hvalue : t.Means env value value')
      (hrest : Mirrors t env ss cs) :
      Mirrors t env (.assign target op value :: ss) (.assign target' op value' :: cs)
  | leave {env : Env} {value : Option Shading.Expr} {value' : Option Expr} {ss : Block}
      {cs : List Statement} (hvalue : Option.Rel (t.Means env) value value')
      (hrest : Mirrors t env ss cs) : Mirrors t env (.leave value :: ss) (t.leave value' ++ cs)
  | skip {env : Env} {ss : Block} {cs : List Statement} (hrest : Mirrors t env ss cs) :
      Mirrors t env (.skip :: ss) (.skip :: cs)
  | stop {env : Env} {ss : Block} {cs : List Statement} (hrest : Mirrors t env ss cs) :
      Mirrors t env (.stop :: ss) (.stop :: cs)
  | discard {env : Env} {ss : Block} {cs : List Statement} (hrest : Mirrors t env ss cs) :
      Mirrors t env (.discard :: ss) (.discard :: cs)
  | branch {env : Env} {condition : Shading.Expr} {condition' : Expr} {body ss : Block}
      {body' cs : List Statement} {rest : Shading.Otherwise} {rest' : Otherwise}
      (hcondition : t.Means env condition condition') (hbody : Mirrors t env body body')
      (hother : MirrorsRest t env rest rest') (hrest : Mirrors t env ss cs) :
      Mirrors t env (.branch condition body rest :: ss) (.branch condition' body' rest' :: cs)
  | forLoop {env : Env} {type : Ty} {type' : TypeName} {v : Handle} {name : String}
      {init condition next : Shading.Expr} {init' condition' next' : Expr} {body ss : Block}
      {body' cs : List Statement} (htype : t.type type = .ok type')
      (hinit : t.Means env init init') (hname : name ∉ env.map Prod.snd)
      (hcondition : t.Means ((v, name) :: env) condition condition')
      (hnext : t.Means ((v, name) :: env) next next')
      (hbody : Mirrors t ((v, name) :: env) body body') (hrest : Mirrors t env ss cs) :
      Mirrors t env (.forLoop type v init condition next body :: ss)
        (.forLoop type' name init' condition' next' body' :: cs)
  | whileLoop {env : Env} {condition : Shading.Expr} {condition' : Expr} {body ss : Block}
      {body' cs : List Statement} (hcondition : t.Means env condition condition')
      (hbody : Mirrors t env body body') (hrest : Mirrors t env ss cs) :
      Mirrors t env (.whileLoop condition body :: ss) (.whileLoop condition' body' :: cs)
  | raw {env : Env} {glsl wgsl : String} {ss : Block} {cs : List Statement}
      (hrest : Mirrors t env ss cs) :
      Mirrors t env (.raw glsl wgsl :: ss) (.verbatim (t.raw glsl wgsl) :: cs)

inductive MirrorsRest (t : Target) : Env → Shading.Otherwise → Otherwise → Prop
  | nothing {env : Env} : MirrorsRest t env .nothing .nothing
  | always {env : Env} {body : Block} {body' : List Statement} (hbody : Mirrors t env body body') :
      MirrorsRest t env (.always body) (.always body')
  | test {env : Env} {condition : Shading.Expr} {condition' : Expr} {body : Block}
      {body' : List Statement} {rest : Shading.Otherwise} {rest' : Otherwise}
      (hcondition : t.Means env condition condition') (hbody : Mirrors t env body body')
      (hrest : MirrorsRest t env rest rest') :
      MirrorsRest t env (.test condition body rest) (.test condition' body' rest')

end

/-! ### Variables of a script and their handles -/

/-- The variables of a script that are in scope, the innermost first, with the handles that they
got. -/
abbrev Visible := List (Handle × Handle)

namespace Visible

def bindings (vs : Visible) : Bindings :=
  vs.map fun (v, h) ↦ (v, .var h)

def env (vs : Visible) : Env :=
  vs.map fun (v, h) ↦ (v, h.text)

theorem get_bindings_cons (vs : Visible) (w v h : Handle) :
    (bindings ((w, h) :: vs)).get v = if v = w then .var h else vs.bindings.get v :=
  Bindings.get_cons _ w v _

@[simp] theorem map_fst_env (vs : Visible) : vs.env.map Prod.fst = vs.map Prod.fst := by
  simp [env]

@[simp] theorem map_snd_env (vs : Visible) :
    vs.env.map Prod.snd = (vs.map Prod.snd).map Handle.text := by
  simp [env]

/-- The handles that a scope may have given to variables. -/
structure KnownTo (vs : Visible) (s : Scope) : Prop where
  nodup : (vs.map Prod.snd).Nodup
  numbered : ∀ h ∈ vs.map Prod.snd, h.Numbered
  known : ∀ h ∈ vs.map Prod.snd, s.Knows h

variable {vs : Visible} {s : Scope}

theorem KnownTo.nested (h : vs.KnownTo s) : vs.KnownTo (.empty (s.depth + 1)) :=
  ⟨h.nodup, h.numbered, fun x hx ↦ (h.known x hx).nested 0 []⟩

theorem KnownTo.push (h : vs.KnownTo s) (statement : Shading.Statement) :
    vs.KnownTo (s.push statement) :=
  ⟨h.nodup, h.numbered, h.known⟩

theorem KnownTo.declare (h : vs.KnownTo s) (v : Handle) (statements : Block) :
    KnownTo ((v, .localVar s.depth s.declared) :: vs)
      ⟨s.depth, s.declared + 1, statements⟩ where
  nodup := List.nodup_cons.mpr ⟨fun hmem ↦ s.not_knows_next (h.known _ hmem), h.nodup⟩
  numbered := List.forall_mem_cons.mpr ⟨trivial, h.numbered⟩
  known := List.forall_mem_cons.mpr
    ⟨.inr ⟨rfl, Nat.lt_succ_self _⟩, fun x hx ↦ (h.known x hx).next statements⟩

theorem KnownTo.text_notMem (h : vs.KnownTo s) :
    (Handle.localVar s.depth s.declared).text ∉ vs.env.map Prod.snd := by
  rw [map_snd_env]
  intro hmem
  obtain ⟨x, hx, htext⟩ := List.mem_map.mp hmem
  have hlocal : (Handle.localVar s.depth s.declared).Numbered := trivial
  cases (h.numbered x hx).eq_of_text hlocal htext
  exact s.not_knows_next (h.known _ hx)

/-- What stands for a variable in scope is a handle whose name leads to its declaration. -/
theorem exists_resolves (hnodup : (vs.map Prod.snd).Nodup)
    (hnumbered : ∀ h ∈ vs.map Prod.snd, h.Numbered) {v : Handle} (hv : v ∈ vs.map Prod.fst) :
    ∃ h ∈ vs.map Prod.snd, vs.bindings.get v = .var h ∧ vs.env.Resolves v h.text := by
  induction vs with
  | nil => cases hv
  | cons p vs ih =>
      obtain ⟨w, k⟩ := p
      obtain ⟨hk, hnodup⟩ := List.nodup_cons.mp hnodup
      obtain ⟨hknumbered, hnumbered⟩ := List.forall_mem_cons.mp hnumbered
      by_cases hvw : v = w
      · subst hvw
        refine ⟨k, List.mem_cons_self, ?_, ?_⟩
        · rw [get_bindings_cons, if_pos rfl]
        · simp [Env.Resolves, env]
      · have hv := (List.mem_cons.mp hv).resolve_left hvw
        obtain ⟨h, hh, hget, hmem, hresolves⟩ := ih hnodup hnumbered hv
        refine ⟨h, List.mem_cons_of_mem _ hh, ?_, ?_⟩
        · rw [get_bindings_cons, if_neg hvw, hget]
        · have htext : k.text ≠ h.text := by
            intro htext
            cases hknumbered.eq_of_text (hnumbered h hh) htext
            exact hk hh
          refine ⟨List.mem_cons_of_mem _ hmem, ?_⟩
          have hfst : (env ((w, k) :: vs)).map Prod.fst = w :: (env vs).map Prod.fst := rfl
          have hsnd : (env ((w, k) :: vs)).map Prod.snd = k.text :: (env vs).map Prod.snd := rfl
          rw [hfst, hsnd, List.idxOf_cons_ne _ htext, List.idxOf_cons_ne _ (Ne.symm hvw), hresolves]

end Visible

/-- Whether constants, arguments and variables are written as their names. -/
def Target.Spells (t : Target) : Prop :=
  ∀ h : Handle, h.Numbered → t.expr (.var h) = .ok (.word h.text)

namespace Visible

variable {t : Target} (ht : t.Spells) {vs : Visible} {s : Scope} (hs : vs.KnownTo s)
include ht hs

theorem KnownTo.means {e : Shading.Expr} {code : Expr}
    (hcode : t.expr (vs.bindings.expr e) = .ok code) : t.Means vs.env e code := by
  refine ⟨vs.bindings.get, hcode, fun v ↦ ?_⟩
  rw [map_fst_env]
  split
  · next hv =>
      obtain ⟨h, hh, hget, hresolves⟩ := exists_resolves hs.nodup hs.numbered hv
      exact ⟨h.text, by rw [hget, ht h (hs.numbered h hh)], hresolves⟩
  · next hv =>
      apply Bindings.get_of_notMem
      simpa [bindings] using hv

theorem KnownTo.means_option {e : Option Shading.Expr} {code : Option Expr}
    (hcode : t.option (e.map vs.bindings.expr) = .ok code) :
    Option.Rel (t.Means vs.env) e code := by
  cases e with
  | none =>
      cases hcode
      exact .none
  | some e =>
      obtain ⟨c, hc, hcode⟩ := bind_eq_ok.mp hcode
      cases hcode
      exact .some (hs.means ht hc)

end Visible

/-! ### Performed scripts -/

/-- The statements that were recorded for a script are mirrored in front of whatever comes after
them. -/
def Renders (vs vs' : Visible) (script added : Block) : Prop :=
  ∀ t : Target, t.Spells → ∀ code, t.block added = .ok code → ∀ ss cs,
    Mirrors t vs'.env ss cs → Mirrors t vs.env (script ++ ss) (code ++ cs)

theorem Renders.nil (vs : Visible) : Renders vs vs [] [] := by
  intro t _ code hcode ss cs h
  cases hcode
  exact h

theorem Renders.append {vs vs' vs'' : Visible} {script script' added added' : Block}
    (h : Renders vs vs' script added) (h' : Renders vs' vs'' script' added') :
    Renders vs vs'' (script ++ script') (added ++ added') := by
  intro t ht code hcode ss cs hss
  obtain ⟨first, last, hfirst, hlast, rfl⟩ := t.block_append _ _ hcode
  rw [List.append_assoc, List.append_assoc]
  exact h t ht first hfirst _ _ (h' t ht last hlast ss cs hss)

theorem Renders.statement {vs vs' : Visible} {st r : Shading.Statement}
    (h : ∀ t : Target, t.Spells → ∀ code, t.statement r = .ok code → ∀ ss cs,
      Mirrors t vs'.env ss cs → Mirrors t vs.env (st :: ss) (code ++ cs)) :
    Renders vs vs' [st] [r] := by
  intro t ht code hcode ss cs hss
  obtain ⟨first, hfirst, hcode⟩ := bind_eq_ok.mp hcode
  cases hcode
  rw [List.append_nil]
  exact h t ht first hfirst ss cs hss

/-- What the performance of a script does to the scope. -/
structure Performed (vs vs' : Visible) (s s' : Scope) (script : Block) : Prop where
  known : vs'.KnownTo s'
  statements : ∃ added, s'.statements = s.statements ++ added ∧ Renders vs vs' script added

namespace Performed

variable {vs vs' vs'' : Visible} {s s' s'' : Scope} {script script' : Block}

theorem trans (h : Performed vs vs' s s' script) (h' : Performed vs' vs'' s' s'' script') :
    Performed vs vs'' s s'' (script ++ script') := by
  obtain ⟨added, hadded, hrenders⟩ := h.statements
  obtain ⟨added', hadded', hrenders'⟩ := h'.statements
  refine ⟨h'.known, added ++ added', ?_, hrenders.append hrenders'⟩
  rw [hadded', hadded, List.append_assoc]

/-- A statement that declares nothing for those after it. -/
theorem push {st r : Shading.Statement} (hs : vs.KnownTo s)
    (h : ∀ t : Target, t.Spells → ∀ code, t.statement r = .ok code → ∀ ss cs,
      Mirrors t vs.env ss cs → Mirrors t vs.env (st :: ss) (code ++ cs)) :
    Performed vs vs s (s.push r) [st] :=
  ⟨hs.push r, [r], rfl, .statement h⟩

/-- A script that was performed at the start of a scope. -/
theorem mirrors {depth declared : Nat} (h : Performed vs vs' ⟨depth, declared, []⟩ s' script)
    {t : Target} (ht : t.Spells) {code : List Statement}
    (hcode : t.block s'.statements = .ok code) : Mirrors t vs.env script code := by
  obtain ⟨added, hadded, hrenders⟩ := h.statements
  rw [hadded] at hcode
  have hmirrors := hrenders t ht code hcode [] [] .nil
  rwa [List.append_nil, List.append_nil] at hmirrors

end Performed

end Shading.Code

namespace Shading

open Code (Visible Performed Mirrors MirrorsRest Target)

theorem performed_declare {vs : Visible} {s : Scope} (hs : vs.KnownTo s) (type : Ty) (v : Handle)
    (init : Option Expr) :
    Performed vs ((v, .localVar s.depth s.declared) :: vs) s
      ⟨s.depth, s.declared + 1, s.statements ++
        [.declare type (.localVar s.depth s.declared) (init.map vs.bindings.expr)]⟩
      [.declare type v init] := by
  refine ⟨hs.declare v _, _, rfl, .statement fun t ht code hcode ss cs hss ↦ ?_⟩
  obtain ⟨type', htype, hcode⟩ := bind_eq_ok.mp hcode
  obtain ⟨init', hinit, hcode⟩ := bind_eq_ok.mp hcode
  cases hcode
  exact .declare htype (hs.means_option ht hinit) hs.text_notMem hss

mutual

theorem Statement.performed : ∀ (st : Statement) {vs : Visible} {s : Scope}, vs.KnownTo s →
    ∃ vs' s', (st.perform vs.bindings).run s = .ok (vs'.bindings, s') ∧
      Performed vs vs' s s' [st]
  | .declare type v none, _, _, hs => ⟨_, _, rfl, performed_declare hs type v none⟩
  | .declare type v (some e), _, _, hs => ⟨_, _, rfl, performed_declare hs type v (some e)⟩
  | .assign target op value, _, _, hs => by
      refine ⟨_, _, rfl, .push hs fun t ht code hcode ss cs hss ↦ ?_⟩
      obtain ⟨target', htarget, hcode⟩ := bind_eq_ok.mp hcode
      obtain ⟨value', hvalue, hcode⟩ := bind_eq_ok.mp hcode
      cases hcode
      exact .assign (hs.means ht htarget) (hs.means ht hvalue) hss
  | .leave value, _, _, hs => by
      refine ⟨_, _, rfl, .push hs fun t ht code hcode ss cs hss ↦ ?_⟩
      obtain ⟨value', hvalue, hcode⟩ := bind_eq_ok.mp hcode
      cases hcode
      exact .leave (hs.means_option ht hvalue) hss
  | .skip, _, _, hs => by
      refine ⟨_, _, rfl, .push hs fun t ht code hcode ss cs hss ↦ ?_⟩
      cases hcode
      exact .skip hss
  | .stop, _, _, hs => by
      refine ⟨_, _, rfl, .push hs fun t ht code hcode ss cs hss ↦ ?_⟩
      cases hcode
      exact .stop hss
  | .discard, _, _, hs => by
      refine ⟨_, _, rfl, .push hs fun t ht code hcode ss cs hss ↦ ?_⟩
      cases hcode
      exact .discard hss
  | .raw glsl wgsl, _, _, hs => by
      refine ⟨_, _, rfl, .push hs fun t ht code hcode ss cs hss ↦ ?_⟩
      cases hcode
      exact .raw hss
  | .branch condition body rest, vs, s, hs => by
      obtain ⟨vs', inner, hrun, hbody⟩ := Block.performed body hs.nested
      obtain ⟨o, hother, hrest⟩ := Otherwise.performed rest hs
      refine ⟨vs, _, Statement.run_branch hrun hother,
        .push hs fun t ht code hcode ss cs hss ↦ ?_⟩
      obtain ⟨condition', hcondition, hcode⟩ := bind_eq_ok.mp hcode
      obtain ⟨body', hbody', hcode⟩ := bind_eq_ok.mp hcode
      obtain ⟨rest', hrest', hcode⟩ := bind_eq_ok.mp hcode
      cases hcode
      exact .branch (hs.means ht hcondition) (hbody.mirrors ht hbody') (hrest t ht rest' hrest') hss
  | .forLoop type v init condition next body, vs, s, hs => by
      have hloop := hs.nested.declare v []
      obtain ⟨vs', inner, hrun, hbody⟩ := Block.performed body hloop
      refine ⟨vs, _, Statement.run_forLoop hrun, .push hs fun t ht code hcode ss cs hss ↦ ?_⟩
      obtain ⟨type', htype, hcode⟩ := bind_eq_ok.mp hcode
      obtain ⟨init', hinit, hcode⟩ := bind_eq_ok.mp hcode
      obtain ⟨condition', hcondition, hcode⟩ := bind_eq_ok.mp hcode
      obtain ⟨next', hnext, hcode⟩ := bind_eq_ok.mp hcode
      obtain ⟨body', hbody', hcode⟩ := bind_eq_ok.mp hcode
      cases hcode
      exact .forLoop htype (hs.means ht hinit) hs.nested.text_notMem (hloop.means ht hcondition)
        (hloop.means ht hnext) (hbody.mirrors ht hbody') hss
  | .whileLoop condition body, vs, s, hs => by
      obtain ⟨vs', inner, hrun, hbody⟩ := Block.performed body hs.nested
      refine ⟨vs, _, Statement.run_whileLoop hrun, .push hs fun t ht code hcode ss cs hss ↦ ?_⟩
      obtain ⟨condition', hcondition, hcode⟩ := bind_eq_ok.mp hcode
      obtain ⟨body', hbody', hcode⟩ := bind_eq_ok.mp hcode
      cases hcode
      exact .whileLoop (hs.means ht hcondition) (hbody.mirrors ht hbody') hss

theorem Block.performed : ∀ (script : Block) {vs : Visible} {s : Scope}, vs.KnownTo s →
    ∃ vs' s', (script.perform vs.bindings).run s = .ok (vs'.bindings, s') ∧
      Performed vs vs' s s' script
  | [], vs, s, hs => ⟨vs, s, rfl, hs, [], (List.append_nil _).symm, .nil vs⟩
  | st :: script, vs, s, hs => by
      obtain ⟨vs₁, s₁, hrun, hfirst⟩ := Statement.performed st hs
      obtain ⟨vs₂, s₂, hrun', hrest⟩ := Block.performed script hfirst.known
      refine ⟨vs₂, s₂, ?_, hfirst.trans hrest⟩
      rw [Block.perform, StateT.run_bind, hrun]
      exact hrun'

theorem Otherwise.performed : ∀ (o : Otherwise) {vs : Visible} {s : Scope}, vs.KnownTo s →
    ∃ o', (o.perform vs.bindings).run s = .ok (o', s) ∧
      ∀ t : Target, t.Spells → ∀ code, t.otherwise o' = .ok code → MirrorsRest t vs.env o code
  | .nothing, _, _, _ => by
      refine ⟨_, rfl, fun t _ code hcode ↦ ?_⟩
      cases hcode
      exact .nothing
  | .always body, vs, s, hs => by
      obtain ⟨vs', inner, hrun, hbody⟩ := Block.performed body hs.nested
      refine ⟨_, Otherwise.run_always hrun, fun t ht code hcode ↦ ?_⟩
      obtain ⟨body', hbody', hcode⟩ := bind_eq_ok.mp hcode
      cases hcode
      exact .always (hbody.mirrors ht hbody')
  | .test condition body rest, vs, s, hs => by
      obtain ⟨vs', inner, hrun, hbody⟩ := Block.performed body hs.nested
      obtain ⟨o, hother, hrest⟩ := Otherwise.performed rest hs
      refine ⟨_, Otherwise.run_test hrun hother, fun t ht code hcode ↦ ?_⟩
      obtain ⟨condition', hcondition, hcode⟩ := bind_eq_ok.mp hcode
      obtain ⟨body', hbody', hcode⟩ := bind_eq_ok.mp hcode
      obtain ⟨rest', hrest', hcode⟩ := bind_eq_ok.mp hcode
      cases hcode
      exact .test (hs.means ht hcondition) (hbody.mirrors ht hbody') (hrest t ht rest' hrest')

end

/-! ### Whole bodies -/

/-- The script of an entry point is recorded, and any code for it mirrors the script. -/
theorem Block.mirrors_recorder (script : Block) :
    ∃ body, script.recorder.record = .ok ((), body) ∧
      ∀ t : Target, t.Spells → ∀ code, t.block body = .ok code → Mirrors t [] script code := by
  have hnone : Visible.KnownTo [] (.empty 0) := ⟨List.nodup_nil, by simp, by simp⟩
  obtain ⟨vs, s, hrun, hperformed⟩ := Block.performed script hnone
  refine ⟨s.statements, ?_, fun t ht code hcode ↦ hperformed.mirrors ht hcode⟩
  exact bind_eq_ok.mpr ⟨_, Recorder.run_ignoring hrun, rfl⟩

theorem mapIdx_index {α β : Type} (l : List α) (g : Nat → β) :
    l.mapIdx (fun i _ ↦ g i) = (List.range l.length).map g := by
  apply List.ext_getElem <;> simp

/-- The arguments of a helper, which have handles before it is recorded. -/
def Code.Visible.arguments (count : Nat) : Visible :=
  (List.range count).map fun i ↦ (.argument i, .argument i)

theorem Code.Visible.bindings_arguments (params : List Ty) :
    (Visible.arguments params.length).bindings = .arguments params := by
  have hterms : Bindings.arguments params =
      params.mapIdx fun i _ ↦ (Handle.argument i, Expr.var (.argument i)) := by
    rw [Bindings.arguments, Program.arguments, List.mapIdx_mapIdx]
    rfl
  rw [hterms, mapIdx_index _ fun i ↦ (Handle.argument i, Expr.var (.argument i)), bindings,
    arguments, List.map_map]
  rfl

theorem Code.Visible.knownTo_arguments (count : Nat) :
    (Visible.arguments count).KnownTo (.empty 0) := by
  have hhandles : (Visible.arguments count).map Prod.snd = (List.range count).map .argument := by
    rw [arguments, List.map_map]
    rfl
  refine ⟨?_, ?_, ?_⟩
  · rw [hhandles]
    exact List.nodup_range.map fun i j hij ↦ Handle.argument.inj hij
  · simp [hhandles, Handle.Numbered]
  · simp [hhandles, Scope.Knows]

/-- The parameters of the function for a helper are the arguments of its script. -/
theorem Code.Target.env_function {t : Target} {name : String} {helper : Helper}
    {f : Code.Function} (hf : t.function name helper = .ok f) :
    f.env = (Visible.arguments helper.params.length).env := by
  obtain ⟨type, -, hf⟩ := bind_eq_ok.mp hf
  obtain ⟨types, htypes, hf⟩ := bind_eq_ok.mp hf
  obtain ⟨code, -, hf⟩ := bind_eq_ok.mp hf
  obtain ⟨last, -, hf⟩ := bind_eq_ok.mp hf
  cases hf
  have hlength := (mapM_eq_ok.mp htypes).length_eq
  rw [Code.Function.env, List.mapIdx_mapIdx, Code.Visible.env, Code.Visible.arguments, List.map_map,
    hlength]
  exact mapIdx_index types fun i ↦ (Handle.argument i, (Handle.argument i).text)

/-- The script of a helper is recorded, and the function for it mirrors the script, with its result
returned at the end and its parameters in scope throughout. -/
theorem Block.mirrors_helperRecorder (script : Block) (params : List Ty) (result : Option Term) :
    ∃ body value, (script.helperRecorder params result).record = .ok (value, body) ∧
      ∀ t : Target, t.Spells → (∀ c, t.leave (some c) = [.leave (some c)]) →
        ∀ name f, t.function name ⟨params, body, value⟩ = .ok f →
          Mirrors t f.env (script.returning result) f.body := by
  obtain ⟨vs, s, hrun, hperformed⟩ :=
    Block.performed script (Code.Visible.knownTo_arguments params.length)
  rw [Code.Visible.bindings_arguments] at hrun
  refine ⟨s.statements, result.map fun r ↦ vs.bindings.term r.type r.expr, ?_, ?_⟩
  · apply bind_eq_ok.mpr
    refine ⟨(result.map fun r ↦ vs.bindings.term r.type r.expr, s), ?_, rfl⟩
    exact bind_eq_ok.mpr ⟨_, hrun, rfl⟩
  · intro t ht hleave name f hf
    rw [Code.Target.env_function hf]
    obtain ⟨type, -, hf⟩ := bind_eq_ok.mp hf
    obtain ⟨types, -, hf⟩ := bind_eq_ok.mp hf
    obtain ⟨code, hcode, hf⟩ := bind_eq_ok.mp hf
    obtain ⟨last, hlast, hf⟩ := bind_eq_ok.mp hf
    cases hf
    obtain ⟨added, hadded, hrenders⟩ := hperformed.statements
    rw [hadded] at hcode
    refine hrenders t ht code hcode _ _ ?_
    cases result with
    | none =>
        cases hlast
        exact .nil
    | some r =>
        obtain ⟨c, hc, hlast⟩ := bind_eq_ok.mp hlast
        cases hlast
        have hmirrors := Mirrors.leave (.some (hperformed.known.means ht hc)) (.nil (t := t))
        rwa [hleave] at hmirrors

end Shading
