import Shading.Proofs.Program.Reachable
import Shading.Proofs.Usage.Recursion

/-!
# Analyses that stay right

Declarations are only ever added, and a body that was analyzed with success is not touched by what
is declared later.  So what is remembered of an entry point is what a new analysis would find, at
any time.
-/

namespace Shading

namespace Declarations

/-- Everything declared keeps its place, its helpers and constants with the same code. -/
structure Grows (d d' : Declarations) : Prop extends d.Extends d' where
  helpers : ∀ n h, d.helpers.get? n = some h → d'.helpers.get? n = some h
  constants : ∀ (i : Nat) c, d.constants[i]? = some c → d'.constants[i]? = some c

theorem Keeps.grows {d d' : Declarations} (h : d.Keeps d') : d.Grows d' :=
  { h.toExtends with
    helpers := h.helpers
    constants := h.constants }

end Declarations

/-! ### Walks under more declarations -/

namespace Usage

variable {d d' : Declarations} {stage : Stage}

theorem Event.code?_of_grows (hgrows : d.Grows d') {e : Event} {body : List Event}
    (h : e.code? d = some body) : e.code? d' = some body := by
  rcases e.plain_or_reference with hplain | ⟨i, rfl⟩ | ⟨n, rfl⟩
  · cases hplain.code?.symm.trans h
  · obtain ⟨value, hvalue, rfl⟩ := Option.map_eq_some_iff.mp h
    exact Option.map_eq_some_iff.mpr ⟨value, hgrows.constants i value hvalue, rfl⟩
  · obtain ⟨helper, hhelper, rfl⟩ := Option.map_eq_some_iff.mp h
    exact Option.map_eq_some_iff.mpr ⟨helper, hgrows.helpers n helper hhelper, rfl⟩

theorem Event.fault?_eq_none_iff {e : Event} {active : List String} :
    e.fault? d stage active = none ↔ e.Allowed d stage ∧ ∀ n, e = .call n → n ∉ active := by
  cases e with
  | call n =>
      rw [fault?_call, and_comm]
      simp [Allowed]
  | read h =>
      cases h with
      | vertexAttribute n => cases hn : d.attributes.contains n <;> simp [fault?, Allowed, hn]
      | output n => cases hn : d.outputs.contains n <;> simp [fault?, Allowed, hn]
      | _ => simp [fault?, Allowed]
  | discard => simp [fault?, Allowed]
  | _ => simp [fault?, Allowed]

theorem Event.Allowed.of_grows (hgrows : d.Grows d') {e : Event} (he : e.Allowed d stage) :
    e.Allowed d' stage := by
  cases e with
  | call n =>
      obtain ⟨h, hh⟩ := Table.exists_get? he
      exact Table.contains_of_get? (hgrows.helpers n h hh)
  | read h =>
      cases h with
      | constant i =>
          have hi := hgrows.constants i _ (Array.getElem?_eq_getElem he)
          exact (Array.getElem?_eq_some_iff.mp hi).1
      | uniform n => exact hgrows.uniforms n he
      | uniformStruct n => exact hgrows.uniformStructs n he
      | sampler n => exact hgrows.samplers n he
      | varying n => exact hgrows.varyings n he
      | vertexAttribute n => exact ⟨hgrows.attributes n he.1, he.2⟩
      | output n => exact ⟨hgrows.outputs n he.1, he.2⟩
      | _ => exact he
  | _ => exact he

theorem Event.fault?_of_grows (hgrows : d.Grows d') {e : Event} {active : List String}
    (h : e.fault? d stage active = none) : e.fault? d' stage active = none := by
  rw [fault?_eq_none_iff] at h ⊢
  exact ⟨h.1.of_grows hgrows, h.2⟩

/-- A reference that is allowed has code. -/
theorem Event.Allowed.plain {e : Event} (he : e.Allowed d stage) (hcode : e.code? d = none) :
    e.Plain := by
  rcases e.plain_or_reference with hplain | ⟨i, rfl⟩ | ⟨n, rfl⟩
  · exact hplain
  · have hi : d.constants[i]? = none := Option.map_eq_none_iff.mp hcode
    exact absurd he (Nat.not_lt.mpr (Array.getElem?_eq_none_iff.mp hi))
  · obtain ⟨h, hh⟩ := Table.exists_get? he
    cases (Option.map_eq_none_iff.mp hcode).symm.trans hh

theorem Walks.of_grows (hgrows : d.Grows d') {active : List String} {es : List Event}
    {u u' : Usage} (h : Walks d stage active es u (.ok u')) :
    Walks d' stage active es u (.ok u') := by
  generalize hr : Except.ok u' = r at h ⊢
  induction h generalizing u' with
  | nil => exact .nil
  | seen hknown _ ih => exact .seen hknown (ih hr)
  | refused => cases hr
  | plain hnew hfault hcode _ ih =>
      -- What has no code yet must not get any: it is no reference, or it would not be allowed.
      have hplain := (Event.fault?_eq_none_iff.mp hfault).1.plain hcode
      exact .plain hnew (Event.fault?_of_grows hgrows hfault) hplain.code? (ih hr)
  | followed hnew hfault hcode _ _ ihbody ihrest =>
      exact .followed hnew (Event.fault?_of_grows hgrows hfault)
        (Event.code?_of_grows hgrows hcode) (ihbody rfl) (ihrest hr)
  | failed => cases hr

theorem RefersTo.path_of_transGen {i j : Nat} (h : Relation.TransGen (RefersTo d) i j) :
    Relation.TransGen (Leads d) (.read (.constant i)) (.read (.constant j)) :=
  h.lift (fun i ↦ Event.read (.constant i)) fun _ _ ↦ RefersTo.leads

/-- An analysis succeeds if the walk without bounds does. -/
theorem of_eq_ok_iff {body : Block} {u : Usage} : Usage.of d stage body = .ok u ↔
    Walks d stage [] (Event.ofBlock true body) .empty (.ok u) := by
  refine ⟨walks_of_eq_ok, fun h ↦ ?_⟩
  obtain ⟨t, ht, -⟩ := h.exists_traced
  have hwalks : Walks d stage [] (Event.ofBlock true body) .empty (Usage.of d stage body) :=
    walks_of fun i hi hpath ↦ ht.acyclic hi (RefersTo.path_of_transGen hpath)
  exact hwalks.unique h

theorem of_eq_ok_of_grows (hgrows : d.Grows d') {body : Block} {u : Usage}
    (h : Usage.of d stage body = .ok u) : Usage.of d' stage body = .ok u :=
  of_eq_ok_iff.mpr ((of_eq_ok_iff.mp h).of_grows hgrows)

end Usage

/-! ### Fresh analyses -/

namespace Program

/-- What an entry point uses is what an analysis of its body finds now. -/
def Fresh (p : Program) : Prop :=
  ∀ name u, p.usageOf name = .ok u → ∃ stage body, p.stageOf name = .ok stage ∧
    p.blockOf name = .ok body ∧ Usage.of p.toDeclarations stage body = .ok u

theorem Fresh.of_agrees {p q : Program} (hp : p.Fresh) (h : p.Agrees q) : q.Fresh := by
  intro name u hu
  rw [h.usage] at hu
  rw [h.stage, h.block, h.declarations]
  exact hp name u hu

/-- A usage that is not remembered is found by an analysis of the body. -/
theorem exists_of_eq_ok {p : Program} {name : String} {e : EntryPoint} {u : Usage}
    (he : p.entries.get? name = some e) (hnone : e.analyzed = none)
    (hu : (e.analyzeOnce p.toDeclarations).1 = .ok u) :
    ∃ stage body, p.stageOf name = .ok stage ∧ p.blockOf name = .ok body ∧
      Usage.of p.toDeclarations stage body = .ok u := by
  obtain ⟨stage, action, recorded, analyzed⟩ := e
  cases hnone
  have hbind : (EntryPoint.recordOnce ⟨stage, action, recorded, none⟩).1 >>=
      Usage.of p.toDeclarations stage = .ok u := by
    cases recorded <;> exact hu
  obtain ⟨body, hbody, hof⟩ := bind_eq_ok.mp hbind
  refine ⟨stage, body, ?_, ?_, hof⟩
  · rw [stageOf, he]
  · rw [blockOf, he]
    exact hbody

theorem Fresh.of_declares {p q : Program} (hp : p.Fresh) (h : Declares p q) : q.Fresh := by
  intro name u hu
  obtain ⟨e, he, hu⟩ := usageOf_eq_ok hu
  rcases EntryPoint.analyzeOnce_eq_ok hu with hremembered | ⟨hnone, -⟩
  · rcases h.added name e he with hold | ⟨stage, body, rfl⟩
    · -- It was found under fewer declarations, and an analysis under more finds the same.
      have hfound : p.usageOf name = .ok u := by
        rw [usageOf_of_some hold, EntryPoint.analyzeOnce, hremembered]
      obtain ⟨stage, body, hstage, hbody, hof⟩ := hp name u hfound
      refine ⟨stage, body, ?_, ?_, Usage.of_eq_ok_of_grows h.declarations.grows hof⟩
      · rw [← hstage, stageOf, stageOf, he, hold]
      · rw [← hbody, blockOf, blockOf, he, hold]
    · cases hremembered
  · exact exists_of_eq_ok he hnone hu

theorem Reachable.fresh {p : Program} (h : p.Reachable) : p.Fresh := by
  refine h.invariant Fresh ?_ ?_
  · intro name u hu
    obtain ⟨e, he, -⟩ := usageOf_eq_ok hu
    cases he
  · intro p q a hp haccepts
    rcases haccepts.declares_or_asks with hdeclares | ⟨k, rfl⟩
    · exact hp.of_declares hdeclares
    · exact hp.of_agrees (k.answers.ask_agrees _)

/-- What is emitted of an entry point is its body and an analysis of it under the declarations. -/
theorem Reachable.emission {p : Program} (hp : p.Reachable) {name : String} {peer : Option String}
    {e : Emission} (h : p.emissionOf name peer = .ok e) :
    e.decls = p.toDeclarations ∧ p.stageOf name = .ok e.stage ∧ p.usageOf name = .ok e.usage ∧
      p.layoutOf name peer = .ok e.layout ∧
      Usage.of p.toDeclarations e.stage e.body = .ok e.usage := by
  obtain ⟨u, hu, h⟩ := bind_eq_ok.mp h
  obtain ⟨l, hl, h⟩ := bind_eq_ok.mp h
  obtain ⟨stage, hstage, h⟩ := bind_eq_ok.mp h
  obtain ⟨body, hbody, h⟩ := bind_eq_ok.mp h
  cases h
  obtain ⟨stage', body', hstage', hbody', hof⟩ := hp.fresh name u hu
  cases hstage.symm.trans hstage'
  cases hbody.symm.trans hbody'
  exact ⟨rfl, hstage, hu, hl, hof⟩

end Program

end Shading
