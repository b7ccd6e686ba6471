import Shading.Proofs.Code.Mentions
import Shading.Proofs.Usage.Notes

/-!
# Coverage

A usage holds all that is read and called in the body of the entry point, in its helpers and in its
constants.
-/

namespace Shading

namespace Usage

/-- The usage has what an event reads or calls.  Arguments and variables belong to a function. -/
def Holds (u : Usage) : Event → Prop
  | .read (.builtin b) => b ∈ u.builtins
  | .read (.constant i) => i ∈ u.constants
  | .read (.uniform n) => n ∈ u.uniforms
  | .read (.uniformStruct n) => n ∈ u.uniformStructs
  | .read (.sampler n) => n ∈ u.samplers
  | .read (.vertexAttribute n) => n ∈ u.attributes
  | .read (.varying n) => n ∈ u.varyings
  | .read (.output n) => n ∈ u.outputs
  | .call n => n ∈ u.helpers
  | _ => True

theorem Traced.holds {t : List Event} {u : Usage} {e : Event} (hu : Traced t u) (he : e ∈ t) :
    u.Holds e := by
  have hmem : ∀ {α : Type} [DecidableEq α] {s : OrderedSet α} {pick : Event → Option α} {a : α},
      s.toList = (t.filterMap pick).eraseDups → pick e = some a → a ∈ s :=
    fun hs hpick ↦ (mem_iff_picked hs).mpr ⟨e, he, hpick⟩
  cases e with
  | read h =>
      cases h with
      | builtin b => exact hmem hu.builtins rfl
      | constant i => exact hmem hu.constants rfl
      | uniform n => exact hmem hu.uniforms rfl
      | uniformStruct n => exact hmem hu.uniformStructs rfl
      | sampler n => exact hmem hu.samplers rfl
      | vertexAttribute n => exact hmem hu.attributes rfl
      | varying n => exact hmem hu.varyings rfl
      | output n => exact hmem hu.outputs rfl
      | argument i => trivial
      | localVar i j => trivial
  | call n => exact hmem hu.helpers rfl
  | _ => trivial

variable {d : Declarations} {stage : Stage} {body : Block} {u : Usage}

theorem holds_body (h : Usage.of d stage body = .ok u) {e : Event}
    (he : e ∈ Event.ofBlock true body) : u.Holds e := by
  obtain ⟨t, ht, hu⟩ := (walks_of_eq_ok h).exists_traced
  exact hu.holds (ht.mem_of_mem he)

/-- A usage that holds a reference holds its code. -/
theorem holds_code (h : Usage.of d stage body = .ok u) {e e' : Event} {code : List Event}
    (hknown : u.knows e = true) (hcode : e.code? d = some code) (he' : e' ∈ code) :
    u.Holds e' := by
  obtain ⟨t, ht, hu⟩ := (walks_of_eq_ok h).exists_traced
  -- In the expansion, the code of a reference stands in front of it wherever it occurs.
  obtain ⟨l, l', hsplit⟩ := List.append_of_mem (hu.mem_of_knows hknown)
  have hmem := ht.mem_before hsplit ⟨code, hcode, he'⟩
  exact hu.holds (hsplit ▸ List.mem_append_left _ hmem)

theorem holds_helper (h : Usage.of d stage body = .ok u) {n : String} {helper : Helper}
    (hn : n ∈ u.helpers) (hhelper : d.helpers.get? n = some helper) {e : Event}
    (he : e ∈ Event.ofHelper helper) : u.Holds e :=
  holds_code h (e := .call n) (decide_eq_true hn) (congrArg (Option.map Event.ofHelper) hhelper) he

theorem holds_constant (h : Usage.of d stage body = .ok u) {i : Nat} {value : Term}
    (hi : i ∈ u.constants) (hvalue : d.constants[i]? = some value) {e : Event}
    (he : e ∈ Event.ofExpr value.expr) : u.Holds e :=
  holds_code h (e := .read (.constant i)) (decide_eq_true hi)
    (congrArg (Option.map fun c : Term ↦ Event.ofExpr c.expr) hvalue) he

/-! ### Stages -/

/-- What only one stage has is used in that stage. -/
structure StageOnly (stage : Stage) (u : Usage) : Prop where
  builtins : ∀ b ∈ u.builtins, b.stage = stage
  attributes : ∀ n ∈ u.attributes, stage = .vertex
  outputs : ∀ n ∈ u.outputs, stage = .fragment

theorem StageOnly.attributes_eq_nil (h : StageOnly stage u) (hstage : stage = .fragment) :
    u.attributes.toList = [] := by
  apply List.eq_nil_iff_forall_not_mem.mpr
  intro n hn
  cases hstage.symm.trans (h.attributes n hn)

theorem Notes.stageOnly {u' : Usage} (h : Notes d stage u u') (hu : StageOnly stage u) :
    StageOnly stage u' := by
  cases h with
  | builtin hb =>
      refine { hu with builtins := fun b hmem ↦ ?_ }
      rcases OrderedSet.mem_insert.mp hmem with hmem | rfl
      · exact hu.builtins b hmem
      · exact hb
  | vertexAttribute _ hstage => exact { hu with attributes := fun _ _ ↦ hstage }
  | output _ hstage => exact { hu with outputs := fun _ _ ↦ hstage }
  | write h => cases h <;> exact { hu with }
  | leave withValue => cases withValue <;> exact { hu with }
  | _ => exact { hu with }

theorem stageOnly_of_eq_ok (h : Usage.of d stage body = .ok u) : StageOnly stage u := by
  have hnotes := notes_of_eq_ok h
  clear h
  induction hnotes with
  | refl => constructor <;> simp [Usage.empty]
  | tail _ hnote ih => exact hnote.stageOnly ih

end Usage

/-! ### Expressions and events -/

namespace Usage.Event

theorem mem_ofValue {value : Option Expr} {e : Expr} {ev : Event} (he : e ∈ value.toList)
    (hev : ev ∈ ofExpr e) : ev ∈ ofValue value := by
  cases Option.mem_toList.mp he
  exact hev

mutual

theorem mem_ofStatement {own : Bool} : ∀ (s : Statement) {e : Expr} {ev : Event}, e ∈ s.exprs →
    ev ∈ ofExpr e → ev ∈ ofStatement own s
  | .declare _ _ init, e, ev, he, hev => mem_ofValue he hev
  | .assign target _ value, e, ev, he, hev => by
    simp only [Statement.exprs, List.mem_cons, List.not_mem_nil, or_false] at he
    rcases he with rfl | rfl <;> simp [ofStatement, hev]
  | .leave value, e, ev, he, hev => List.mem_append_right _ (mem_ofValue he hev)
  | .skip, e, ev, he, hev => by cases he
  | .stop, e, ev, he, hev => by cases he
  | .discard, e, ev, he, hev => by cases he
  | .branch condition body rest, e, ev, he, hev => by
    simp only [Statement.exprs, List.mem_cons, List.mem_append] at he
    rcases he with rfl | he | he
    · simp [ofStatement, hev]
    · simp [ofStatement, mem_ofBlock body he hev]
    · simp [ofStatement, mem_ofOtherwise rest he hev]
  | .forLoop _ _ init condition next body, e, ev, he, hev => by
    simp only [Statement.exprs, List.mem_cons] at he
    rcases he with rfl | rfl | rfl | he
    · simp [ofStatement, hev]
    · simp [ofStatement, hev]
    · simp [ofStatement, hev]
    · simp [ofStatement, mem_ofBlock body he hev]
  | .whileLoop condition body, e, ev, he, hev => by
    simp only [Statement.exprs, List.mem_cons] at he
    rcases he with rfl | he
    · simp [ofStatement, hev]
    · simp [ofStatement, mem_ofBlock body he hev]
  | .raw .., e, ev, he, hev => by cases he

/-- The events of a block have those of every expression in it. -/
theorem mem_ofBlock {own : Bool} : ∀ (ss : List Statement) {e : Expr} {ev : Event},
    e ∈ Block.exprs ss → ev ∈ ofExpr e → ev ∈ ofBlock own ss
  | [], e, ev, he, hev => by cases he
  | s :: ss, e, ev, he, hev => by
    rcases List.mem_append.mp he with he | he
    · exact List.mem_append_left _ (mem_ofStatement s he hev)
    · exact List.mem_append_right _ (mem_ofBlock ss he hev)

theorem mem_ofOtherwise {own : Bool} : ∀ (rest : Otherwise) {e : Expr} {ev : Event},
    e ∈ rest.exprs → ev ∈ ofExpr e → ev ∈ ofOtherwise own rest
  | .nothing, e, ev, he, hev => by cases he
  | .always body, e, ev, he, hev => mem_ofBlock body he hev
  | .test condition body rest, e, ev, he, hev => by
    simp only [Otherwise.exprs, List.mem_cons, List.mem_append] at he
    rcases he with rfl | he | he
    · simp [ofOtherwise, hev]
    · simp [ofOtherwise, mem_ofBlock body he hev]
    · simp [ofOtherwise, mem_ofOtherwise rest he hev]

end

theorem mem_ofHelper {helper : Helper} {e : Expr} {ev : Event} (he : e ∈ helper.exprs)
    (hev : ev ∈ ofExpr e) : ev ∈ ofHelper helper := by
  rcases List.mem_append.mp he with he | he
  · exact List.mem_append_left _ (mem_ofBlock helper.body he hev)
  · exact List.mem_append_right _ (mem_ofValue he hev)

end Usage.Event

end Shading
