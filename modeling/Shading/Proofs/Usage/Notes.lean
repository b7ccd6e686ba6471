import Mathlib.Logic.Relation
import Shading.Proofs.Collection
import Shading.Proofs.Outcome
import Shading.Usage.Walk

/-!
# What a walk can note

A walk over a body notes one thing after the other, and what it notes is declared and belongs to the
stage.  Whatever holds at the start and is kept by every note holds of the usage at the end.
-/

namespace Shading.Usage

/-- One thing noted in a stage under some declarations. -/
inductive Notes (d : Declarations) (stage : Stage) (u : Usage) : Usage → Prop
  | builtin {b : Builtin} (h : b.stage = stage) :
      Notes d stage u { u with builtins := u.builtins.insert b }
  | uniform {n : String} (h : d.uniforms.contains n = true) : Notes d stage u (u.addUniform n)
  | uniformStruct {n : String} (h : d.uniformStructs.contains n = true) :
      Notes d stage u (u.addUniformStruct n)
  | sampler {n : String} (h : d.samplers.contains n = true) : Notes d stage u (u.addSampler n)
  | vertexAttribute {n : String} (h : d.attributes.contains n = true) (hstage : stage = .vertex) :
      Notes d stage u { u with attributes := u.attributes.insert n }
  | varying {n : String} (h : d.varyings.contains n = true) :
      Notes d stage u { u with varyings := u.varyings.insert n }
  | output {n : String} (h : d.outputs.contains n = true) (hstage : stage = .fragment) :
      Notes d stage u { u with outputs := u.outputs.insert n }
  | constant {i : Nat} (h : i < d.constants.size) :
      Notes d stage u { u with constants := u.constants.insert i }
  | helper {n : String} (h : d.helpers.contains n = true) :
      Notes d stage u { u with helpers := u.helpers.insert n }
  | write (h : Handle) : Notes d stage u (u.addWrite h)
  | leave (withValue : Bool) : Notes d stage u (u.addReturn withValue)
  | discard (hstage : stage = .fragment) : Notes d stage u { u with discards := true }

variable {d : Declarations} {stage : Stage}

/-- A walk that does nothing but note. -/
def Noting (d : Declarations) (stage : Stage) (w : Walk Unit) : Prop :=
  ∀ u u', w.run u = .ok ((), u') → Relation.ReflTransGen (Notes d stage) u u'

/-! ### Steps of a walk -/

theorem noting_pure : Noting d stage (pure ()) := by
  intro u u' h
  cases h
  exact .refl

theorem noting_throw (e : Error) : Noting d stage (throw e) := by
  intro u u' h
  cases h

theorem noting_modify {f : Usage → Usage} (hf : ∀ u, Notes d stage u (f u)) :
    Noting d stage (modify f) := by
  intro u u' h
  cases h
  exact .single (hf u)

theorem Noting.bind {w : Walk Unit} {k : Unit → Walk Unit} (hw : Noting d stage w)
    (hk : Noting d stage (k ())) : Noting d stage (w >>= k) := by
  intro u u' h
  obtain ⟨⟨⟨⟩, v⟩, hv, hrest⟩ := bind_eq_ok.mp h
  exact (hw u v hv).trans (hk v u' hrest)

theorem noting_get {k : Usage → Walk Unit} (hk : ∀ u, Noting d stage (k u)) :
    Noting d stage (get >>= k) :=
  fun u u' h ↦ hk u u u' h

theorem noting_ite {c : Prop} [Decidable c] {w w' : Walk Unit} (hw : c → Noting d stage w)
    (hw' : ¬ c → Noting d stage w') : Noting d stage (if c then w else w') := by
  split
  · next hc => exact hw hc
  · next hc => exact hw' hc

/-! ### Expressions -/

theorem noting_handle {constant : Nat → Walk Unit} (hc : ∀ i, Noting d stage (constant i))
    (h : Handle) : Noting d stage (Walk.handle d stage constant h) := by
  cases h with
  | builtin b =>
      exact noting_ite (fun hb ↦ noting_modify fun _ ↦ .builtin hb) fun _ ↦ noting_throw _
  | constant i => exact hc i
  | argument i => exact noting_pure
  | localVar i j => exact noting_pure
  | uniform n =>
      exact noting_ite (fun hn ↦ noting_modify fun _ ↦ .uniform hn) fun _ ↦ noting_throw _
  | uniformStruct n =>
      exact noting_ite (fun hn ↦ noting_modify fun _ ↦ .uniformStruct hn) fun _ ↦ noting_throw _
  | sampler n =>
      exact noting_ite (fun hn ↦ noting_modify fun _ ↦ .sampler hn) fun _ ↦ noting_throw _
  | vertexAttribute n =>
      refine noting_ite (fun _ ↦ noting_throw _) fun hn ↦ ?_
      refine noting_ite (fun _ ↦ noting_throw _) fun hstage ↦ ?_
      exact noting_modify fun _ ↦ .vertexAttribute (by simpa using hn) (not_not.mp hstage)
  | varying n =>
      exact noting_ite (fun hn ↦ noting_modify fun _ ↦ .varying hn) fun _ ↦ noting_throw _
  | output n =>
      refine noting_ite (fun _ ↦ noting_throw _) fun hn ↦ ?_
      refine noting_ite (fun _ ↦ noting_throw _) fun hstage ↦ ?_
      exact noting_modify fun _ ↦ .output (by simpa using hn) (not_not.mp hstage)

mutual

theorem noting_expr {onHandle : Handle → Walk Unit} {onCall : String → Walk Unit}
    (hh : ∀ h, Noting d stage (onHandle h)) (hc : ∀ n, Noting d stage (onCall n)) :
    ∀ e : Expr, Noting d stage (Walk.expr onHandle onCall e)
  | .lit _ => by
    rw [Walk.expr]
    exact noting_pure
  | .array _ items => by
    rw [Walk.expr]
    exact noting_exprs hh hc items
  | .var h => by
    rw [Walk.expr]
    exact hh h
  | .unary _ a => by
    rw [Walk.expr]
    exact noting_expr hh hc a
  | .binary _ a b => by
    rw [Walk.expr]
    exact (noting_expr hh hc a).bind (noting_expr hh hc b)
  | .call callee args => by
    have hargs := noting_exprs hh hc args
    cases callee with
    | helper name =>
        rw [Walk.expr]
        exact hargs.bind (hc name)
    | _ =>
        rw [Walk.expr]
        · exact hargs.bind noting_pure
        · intro name hname
          cases hname
  | .swizzle a _ => by
    rw [Walk.expr]
    exact noting_expr hh hc a
  | .field a _ => by
    rw [Walk.expr]
    exact noting_expr hh hc a
  | .index a i => by
    rw [Walk.expr]
    exact (noting_expr hh hc a).bind (noting_expr hh hc i)

theorem noting_exprs {onHandle : Handle → Walk Unit} {onCall : String → Walk Unit}
    (hh : ∀ h, Noting d stage (onHandle h)) (hc : ∀ n, Noting d stage (onCall n)) :
    ∀ es : List Expr, Noting d stage (Walk.exprs onHandle onCall es)
  | [] => by
    rw [Walk.exprs]
    exact noting_pure
  | e :: es => by
    rw [Walk.exprs]
    exact (noting_expr hh hc e).bind (noting_exprs hh hc es)

end

/-! ### Statements -/

theorem noting_leave {onExpr : Expr → Walk Unit} (he : ∀ e, Noting d stage (onExpr e))
    (inHelper : Bool) (value : Option Expr) :
    Noting d stage (Walk.leave onExpr inHelper value) := by
  unfold Walk.leave
  cases value with
  | none =>
      cases inHelper with
      | true => exact noting_pure.bind noting_pure
      | false => exact (noting_modify fun _ ↦ .leave false).bind noting_pure
  | some e =>
      cases inHelper with
      | true => exact Noting.bind (k := fun _ ↦ onExpr e) noting_pure (he e)
      | false => exact (noting_modify fun _ ↦ .leave true).bind (he e)

mutual

theorem noting_statement {onExpr : Expr → Walk Unit} (he : ∀ e, Noting d stage (onExpr e))
    (inHelper : Bool) : ∀ s : Statement, Noting d stage (Walk.statement stage inHelper onExpr s)
  | .declare _ _ none => by
    rw [Walk.statement]
    exact noting_pure
  | .declare _ _ (some e) => by
    rw [Walk.statement]
    exact he e
  | .assign target _ value => by
    rw [Walk.statement]
    refine (he target).bind ((he value).bind ?_)
    cases target.root? with
    | none => exact noting_pure
    | some h => exact noting_modify fun _ ↦ .write h
  | .leave value => by
    rw [Walk.statement]
    exact noting_leave he inHelper value
  | .skip => by
    rw [Walk.statement]
    exact noting_pure
  | .stop => by
    rw [Walk.statement]
    exact noting_pure
  | .discard => by
    rw [Walk.statement]
    exact noting_ite (fun hs ↦ noting_modify fun _ ↦ .discard hs) fun _ ↦ noting_throw _
  | .branch condition body rest => by
    rw [Walk.statement]
    exact (he condition).bind
      ((noting_statements he inHelper body).bind (noting_otherwise he inHelper rest))
  | .forLoop _ _ init condition next body => by
    rw [Walk.statement]
    exact (he init).bind ((he condition).bind ((he next).bind (noting_statements he inHelper body)))
  | .whileLoop condition body => by
    rw [Walk.statement]
    exact (he condition).bind (noting_statements he inHelper body)
  | .raw .. => by
    rw [Walk.statement]
    exact noting_pure

theorem noting_statements {onExpr : Expr → Walk Unit} (he : ∀ e, Noting d stage (onExpr e))
    (inHelper : Bool) :
    ∀ ss : List Statement, Noting d stage (Walk.statements stage inHelper onExpr ss)
  | [] => by
    rw [Walk.statements]
    exact noting_pure
  | s :: ss => by
    rw [Walk.statements]
    exact (noting_statement he inHelper s).bind (noting_statements he inHelper ss)

theorem noting_otherwise {onExpr : Expr → Walk Unit} (he : ∀ e, Noting d stage (onExpr e))
    (inHelper : Bool) : ∀ o : Otherwise, Noting d stage (Walk.otherwise stage inHelper onExpr o)
  | .nothing => by
    rw [Walk.otherwise]
    exact noting_pure
  | .always body => by
    rw [Walk.otherwise]
    exact noting_statements he inHelper body
  | .test condition body rest => by
    rw [Walk.otherwise]
    exact (he condition).bind
      ((noting_statements he inHelper body).bind (noting_otherwise he inHelper rest))

end

/-! ### Constants and helpers -/

theorem noting_constant {onCall : String → Walk Unit} (hc : ∀ n, Noting d stage (onCall n))
    (fuel i : Nat) : Noting d stage (Walk.constant d stage onCall fuel i) := by
  induction fuel generalizing i with
  | zero => exact noting_throw _
  | succ fuel ih =>
      rw [Walk.constant]
      refine noting_get fun u ↦ noting_ite (fun _ ↦ noting_pure) fun _ ↦ ?_
      split
      · exact noting_throw _
      · next value hvalue =>
        have hi : i < d.constants.size := (Array.getElem?_eq_some_iff.mp hvalue).1
        exact (noting_expr (noting_handle ih) hc value.expr).bind
          (noting_modify fun _ ↦ .constant hi)

theorem noting_deepExpr {onCall : String → Walk Unit} (hc : ∀ n, Noting d stage (onCall n))
    (e : Expr) : Noting d stage (Walk.deepExpr d stage onCall e) :=
  noting_expr (noting_handle (noting_constant hc _)) hc e

theorem noting_helper (fuel : Nat) (active : List String) (name : String) :
    Noting d stage (Walk.helper d stage fuel active name) := by
  induction fuel generalizing active name with
  | zero => exact noting_throw _
  | succ fuel ih =>
      rw [Walk.helper]
      refine noting_get fun u ↦ noting_ite (fun _ ↦ noting_pure) fun _ ↦ ?_
      refine noting_ite (fun _ ↦ noting_throw _) fun _ ↦ ?_
      split
      · exact noting_throw _
      · next h hh =>
        have hdeep := noting_deepExpr fun n ↦ ih (name :: active) n
        have hdeclared := Table.contains_of_get? hh
        exact (noting_statements hdeep true h.body).bind ((noting_leave hdeep true _).bind
          (noting_modify fun _ ↦ .helper hdeclared))

/-- The usage of a body is noted from nothing. -/
theorem notes_of_eq_ok {body : Block} {u : Usage} (h : Usage.of d stage body = .ok u) :
    Relation.ReflTransGen (Notes d stage) .empty u := by
  obtain ⟨⟨⟨⟩, v⟩, hv, hu⟩ := bind_eq_ok.mp h
  cases hu
  exact noting_statements (noting_deepExpr fun n ↦ noting_helper _ [] n) false body _ _ hv

/-! ### Declared usage -/

/-- Everything used is declared, and what has bindings is exactly the uniforms, the struct uniforms
and the samplers. -/
structure Declared (d : Declarations) (u : Usage) : Prop where
  uniforms : ∀ n ∈ u.uniforms, d.uniforms.contains n = true
  uniformStructs : ∀ n ∈ u.uniformStructs, d.uniformStructs.contains n = true
  samplers : ∀ n ∈ u.samplers, d.samplers.contains n = true
  attributes : ∀ n ∈ u.attributes, d.attributes.contains n = true
  varyings : ∀ n ∈ u.varyings, d.varyings.contains n = true
  outputs : ∀ n ∈ u.outputs, d.outputs.contains n = true
  bindings : ∀ h, h ∈ u.bindings ↔ (∃ n ∈ u.uniforms, h = .uniform n) ∨
    (∃ n ∈ u.uniformStructs, h = .uniformStruct n) ∨ ∃ n ∈ u.samplers, h = .sampler n

theorem declared_empty (d : Declarations) : Declared d .empty := by
  constructor <;> simp [Usage.empty]

theorem Notes.declared {u u' : Usage} (h : Notes d stage u u') (hu : Declared d u) :
    Declared d u' := by
  have hinsert : ∀ {s : OrderedSet String} {contains : String → Bool} {n : String},
      (∀ m ∈ s, contains m = true) → contains n = true → ∀ m ∈ s.insert n, contains m = true := by
    intro s contains n hs hn m hm
    rcases OrderedSet.mem_insert.mp hm with hm | rfl
    · exact hs m hm
    · exact hn
  cases h with
  | uniform hn =>
      refine { hu with uniforms := hinsert hu.uniforms hn, bindings := fun h ↦ ?_ }
      simp only [addUniform, OrderedSet.mem_insert, hu.bindings h, or_and_right, exists_or,
        exists_eq_left]
      exact or_right_comm
  | uniformStruct hn =>
      refine { hu with uniformStructs := hinsert hu.uniformStructs hn, bindings := fun h ↦ ?_ }
      simp only [addUniformStruct, OrderedSet.mem_insert, hu.bindings h, or_and_right, exists_or,
        exists_eq_left]
      rw [or_assoc, or_right_comm]
  | sampler hn =>
      refine { hu with samplers := hinsert hu.samplers hn, bindings := fun h ↦ ?_ }
      simp only [addSampler, OrderedSet.mem_insert, hu.bindings h, or_and_right, exists_or,
        exists_eq_left, or_assoc]
  | vertexAttribute hn _ => exact { hu with attributes := hinsert hu.attributes hn }
  | varying hn => exact { hu with varyings := hinsert hu.varyings hn }
  | output hn _ => exact { hu with outputs := hinsert hu.outputs hn }
  | write h => cases h <;> exact { hu with }
  | leave withValue => cases withValue <;> exact { hu with }
  | _ => exact { hu with }

theorem declared_of_eq_ok {body : Block} {u : Usage} (h : Usage.of d stage body = .ok u) :
    Declared d u := by
  have hnotes := notes_of_eq_ok h
  clear h
  induction hnotes with
  | refl => exact declared_empty d
  | tail _ hnote ih => exact hnote.declared ih

end Shading.Usage
