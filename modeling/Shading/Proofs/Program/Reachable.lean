import Shading.Proofs.Program.Acceptance
import Shading.Proofs.Usage.Notes

/-!
# Reachable programs

Programs that come about by declarations and queries, in any order, whether they go through or fail.
An accepted action adds to what is declared or asks a question, and nothing else.  In all reachable
programs uniforms, struct uniforms and samplers have different names, and what an entry point uses
is declared, even if it was analyzed long before the last declaration.
-/

namespace Shading

/-! ### Runs -/

/-- A program after any actions, accepted or refused. -/
inductive Program.Reachable : Program → Prop
  | empty : Reachable .empty
  | perform {p : Program} (hp : Reachable p) (a : Action) : Reachable (a.perform p)

/-- What accepted actions preserve holds of every reachable program. -/
theorem Program.Reachable.invariant (Inv : Program → Prop) (hempty : Inv .empty)
    (haccept : ∀ p q a, Inv p → Action.Accepts p a q → Inv q) {p : Program} (h : p.Reachable) :
    Inv p := by
  induction h with
  | empty => exact hempty
  | @perform p hp a ih =>
      rcases a.perform_eq_or_accepts p with hsame | haccepts
      · rw [hsame]
        exact ih
      · exact haccept _ _ a ih haccepts

namespace Action

theorem reachable_foldl {p : Program} (hp : p.Reachable) (actions : List Action) :
    (actions.foldl perform p).Reachable := by
  induction actions generalizing p with
  | nil => exact hp
  | cons a actions ih => exact ih (hp.perform a)

theorem reachable_run (actions : List Action) : (run actions).Reachable :=
  reachable_foldl .empty actions

end Action

/-! ### Declarations that grow -/

namespace Table

variable {α : Type} {t t' t'' : Table α}

/-- What is found in the first table is found in the second one. -/
def Keeps (t t' : Table α) : Prop :=
  ∀ n a, t.get? n = some a → t'.get? n = some a

theorem Keeps.refl (t : Table α) : t.Keeps t :=
  fun _ _ ↦ id

theorem Keeps.trans (h : t.Keeps t') (h' : t'.Keeps t'') : t.Keeps t'' :=
  fun n a ha ↦ h' n a (h n a ha)

theorem keeps_add {name : String} (hnew : ¬ t.contains name = true) (a : α) :
    t.Keeps (t.add name a) := by
  have hnew := Bool.eq_false_iff.mpr hnew
  exact fun _ _ hb ↦ (get?_add_of_new hnew).mpr (.inl hb)

theorem Keeps.get?_eq (h : t.Keeps t') {n : String} (hn : t.contains n = true) :
    t'.get? n = t.get? n := by
  obtain ⟨a, ha⟩ := exists_get? hn
  rw [ha, h n a ha]

theorem Keeps.contains (h : t.Keeps t') (n : String) (hn : t.contains n = true) :
    t'.contains n = true := by
  obtain ⟨a, ha⟩ := exists_get? hn
  exact contains_of_get? (h n a ha)

end Table

namespace Declarations

/-- What is declared stays declared. -/
structure Extends (d d' : Declarations) : Prop where
  uniforms : ∀ n, d.uniforms.contains n = true → d'.uniforms.contains n = true
  uniformStructs : ∀ n, d.uniformStructs.contains n = true → d'.uniformStructs.contains n = true
  samplers : ∀ n, d.samplers.contains n = true → d'.samplers.contains n = true
  attributes : ∀ n, d.attributes.contains n = true → d'.attributes.contains n = true
  varyings : ∀ n, d.varyings.contains n = true → d'.varyings.contains n = true
  outputs : ∀ n, d.outputs.contains n = true → d'.outputs.contains n = true

/-- Everything declared stays as it is. -/
structure Keeps (d d' : Declarations) : Prop where
  uniforms : d.uniforms.Keeps d'.uniforms
  uniformStructs : d.uniformStructs.Keeps d'.uniformStructs
  attributes : d.attributes.Keeps d'.attributes
  varyings : d.varyings.Keeps d'.varyings
  samplers : d.samplers.Keeps d'.samplers
  outputs : d.outputs.Keeps d'.outputs
  helpers : d.helpers.Keeps d'.helpers
  constants : ∀ (i : Nat) c, d.constants[i]? = some c → d'.constants[i]? = some c

variable {d d' d'' : Declarations}

theorem Keeps.refl (d : Declarations) : d.Keeps d :=
  ⟨.refl _, .refl _, .refl _, .refl _, .refl _, .refl _, .refl _, fun _ _ ↦ id⟩

theorem Keeps.trans (h : d.Keeps d') (h' : d'.Keeps d'') : d.Keeps d'' where
  uniforms := h.uniforms.trans h'.uniforms
  uniformStructs := h.uniformStructs.trans h'.uniformStructs
  attributes := h.attributes.trans h'.attributes
  varyings := h.varyings.trans h'.varyings
  samplers := h.samplers.trans h'.samplers
  outputs := h.outputs.trans h'.outputs
  helpers := h.helpers.trans h'.helpers
  constants i c hc := h'.constants i c (h.constants i c hc)

theorem Keeps.toExtends (h : d.Keeps d') : d.Extends d' where
  uniforms := h.uniforms.contains
  uniformStructs := h.uniformStructs.contains
  samplers := h.samplers.contains
  attributes := h.attributes.contains
  varyings := h.varyings.contains
  outputs := h.outputs.contains

/-- No name stands for two resources with bindings. -/
structure NamesApart (d : Declarations) : Prop where
  uniform_struct : ∀ n, d.uniforms.contains n = true → ¬ d.uniformStructs.contains n = true
  uniform_sampler : ∀ n, d.uniforms.contains n = true → ¬ d.samplers.contains n = true
  struct_sampler : ∀ n, d.uniformStructs.contains n = true → ¬ d.samplers.contains n = true

variable {name : String}

theorem NamesApart.addUniform (h : d.NamesApart) (hstruct : ¬ d.uniformStructs.contains name = true)
    (hsampler : ¬ d.samplers.contains name = true) (u : UniformDecl) :
    NamesApart { d with uniforms := d.uniforms.add name u } := by
  refine ⟨?_, ?_, h.struct_sampler⟩
  · intro n hn
    rcases Table.contains_add.mp hn with hn | rfl
    · exact h.uniform_struct n hn
    · exact hstruct
  · intro n hn
    rcases Table.contains_add.mp hn with hn | rfl
    · exact h.uniform_sampler n hn
    · exact hsampler

theorem NamesApart.addUniformStruct (h : d.NamesApart)
    (huniform : ¬ d.uniforms.contains name = true)
    (hsampler : ¬ d.samplers.contains name = true) (u : StructUniformDecl) :
    NamesApart { d with uniformStructs := d.uniformStructs.add name u } := by
  refine ⟨?_, h.uniform_sampler, ?_⟩
  · intro n hn hstruct
    rcases Table.contains_add.mp hstruct with hstruct | rfl
    · exact h.uniform_struct n hn hstruct
    · exact huniform hn
  · intro n hn
    rcases Table.contains_add.mp hn with hn | rfl
    · exact h.struct_sampler n hn
    · exact hsampler

theorem NamesApart.addSampler (h : d.NamesApart) (huniform : ¬ d.uniforms.contains name = true)
    (hstruct : ¬ d.uniformStructs.contains name = true) (s : SamplerDecl) :
    NamesApart { d with samplers := d.samplers.add name s } := by
  refine ⟨h.uniform_struct, ?_, ?_⟩
  · intro n hn hsampler
    rcases Table.contains_add.mp hsampler with hsampler | rfl
    · exact h.uniform_sampler n hn hsampler
    · exact huniform hn
  · intro n hn hsampler
    rcases Table.contains_add.mp hsampler with hsampler | rfl
    · exact h.struct_sampler n hn hsampler
    · exact hstruct hn

end Declarations

/-! ### What an accepted action does -/

namespace Program

/-- A declaration keeps all that is there, and an entry point that it adds has nothing
remembered. -/
structure Declares (p q : Program) : Prop where
  declarations : p.toDeclarations.Keeps q.toDeclarations
  apart : p.toDeclarations.NamesApart → q.toDeclarations.NamesApart
  entries : p.entries.Keeps q.entries
  added : ∀ name e, q.entries.get? name = some e →
    p.entries.get? name = some e ∨ ∃ stage body, e = .new stage body

theorem declares_of_entries_eq {p q : Program}
    (hkeeps : p.toDeclarations.Keeps q.toDeclarations)
    (hapart : p.toDeclarations.NamesApart → q.toDeclarations.NamesApart)
    (hentries : q.entries = p.entries) : Declares p q where
  declarations := hkeeps
  apart := hapart
  entries := by
    rw [hentries]
    exact .refl _
  added name e he := .inl (hentries ▸ he)

theorem not_usesUniformName {p : Program} {name : String} (h : ¬ p.usesUniformName name = true) :
    ¬ p.uniforms.contains name = true ∧ ¬ p.uniformStructs.contains name = true ∧
      ¬ p.samplers.contains name = true := by
  simpa [usesUniformName, and_assoc] using h

end Program

/-- An accepted action is a declaration or a question. -/
theorem Action.Accepts.declares_or_asks {p q : Program} {a : Action} (h : Accepts p a q) :
    p.Declares q ∨ ∃ k : Question, q = (k.query.ask p).2.2 := by
  have hrefl := Declarations.Keeps.refl p.toDeclarations
  cases h with
  | uniform hname =>
      obtain ⟨hu, hs, ht⟩ := Program.not_usesUniformName hname
      exact .inl (Program.declares_of_entries_eq { hrefl with uniforms := Table.keeps_add hu _ }
        (fun hp ↦ hp.addUniform hs ht _) rfl)
  | uniformStruct hname hstructs =>
      obtain ⟨hu, hs, ht⟩ := Program.not_usesUniformName hname
      exact .inl (Program.declares_of_entries_eq
        { hrefl with uniformStructs := Table.keeps_add hs _ }
        (fun hp ↦ { hp.addUniformStruct hu ht _ with }) rfl)
  | sampler hname =>
      obtain ⟨hu, hs, ht⟩ := Program.not_usesUniformName hname
      exact .inl (Program.declares_of_entries_eq { hrefl with samplers := Table.keeps_add ht _ }
        (fun hp ↦ hp.addSampler hu hs _) rfl)
  | vertexAttribute hname =>
      exact .inl (Program.declares_of_entries_eq
        { hrefl with attributes := Table.keeps_add hname _ } (fun hp ↦ { hp with }) rfl)
  | varying hname =>
      exact .inl (Program.declares_of_entries_eq { hrefl with varyings := Table.keeps_add hname _ }
        (fun hp ↦ { hp with }) rfl)
  | output hname =>
      exact .inl (Program.declares_of_entries_eq { hrefl with outputs := Table.keeps_add hname _ }
        (fun hp ↦ { hp with }) rfl)
  | constant hroom =>
      refine .inl (Program.declares_of_entries_eq { hrefl with constants := fun i c hc ↦ ?_ }
        (fun hp ↦ { hp with }) rfl)
      have hi := (Array.getElem?_eq_some_iff.mp hc).1
      rwa [Array.getElem?_push_lt hi, ← Array.getElem?_eq_getElem hi]
  | helper hname hbody =>
      exact .inl (Program.declares_of_entries_eq { hrefl with helpers := Table.keeps_add hname _ }
        (fun hp ↦ { hp with }) rfl)
  | entry hname =>
      refine .inl ⟨hrefl, id, Table.keeps_add hname _, fun other e he ↦ ?_⟩
      rcases (Table.get?_add_of_new (Bool.eq_false_iff.mpr hname)).mp he with hold | ⟨-, rfl⟩
      · exact .inl hold
      · exact .inr ⟨_, _, rfl⟩
  | ask k => exact .inr ⟨k, rfl⟩

theorem Usage.Declared.mono {d d' : Declarations} (h : d.Extends d') {u : Usage}
    (hu : u.Declared d) : u.Declared d' where
  uniforms n hn := h.uniforms n (hu.uniforms n hn)
  uniformStructs n hn := h.uniformStructs n (hu.uniformStructs n hn)
  samplers n hn := h.samplers n (hu.samplers n hn)
  attributes n hn := h.attributes n (hu.attributes n hn)
  varyings n hn := h.varyings n (hu.varyings n hn)
  outputs n hn := h.outputs n (hu.outputs n hn)
  bindings := hu.bindings

/-- A usage was remembered or is new. -/
theorem EntryPoint.analyzeOnce_eq_ok {d : Declarations} {e : EntryPoint} {u : Usage}
    (h : (e.analyzeOnce d).1 = .ok u) :
    e.analyzed = some (.ok u) ∨
      e.analyzed = none ∧ ∃ body, Usage.of d e.stage body = .ok u := by
  obtain ⟨stage, body, recorded, analyzed⟩ := e
  cases analyzed with
  | some outcome => exact .inl (congrArg some h)
  | none =>
      refine .inr ⟨rfl, ?_⟩
      cases recorded with
      | none =>
          obtain ⟨block, -, hu⟩ := bind_eq_ok.mp h
          exact ⟨block, hu⟩
      | some outcome =>
          obtain ⟨block, -, hu⟩ := bind_eq_ok.mp h
          exact ⟨block, hu⟩

theorem EntryPoint.declared_of_extends {d d' : Declarations} (hext : d.Extends d')
    {e : EntryPoint} (h : ∀ u, (e.analyzeOnce d).1 = .ok u → u.Declared d) {u : Usage}
    (hu : (e.analyzeOnce d').1 = .ok u) : u.Declared d' := by
  rcases analyzeOnce_eq_ok hu with hold | ⟨-, body, hnew⟩
  · have hdeclared : u.Declared d := h u (by rw [analyzeOnce, hold])
    exact hdeclared.mono hext
  · exact Usage.declared_of_eq_ok hnew

/-! ### Soundness -/

namespace Program

structure Sound (p : Program) : Prop where
  apart : p.toDeclarations.NamesApart
  declared : ∀ name u, p.usageOf name = .ok u → u.Declared p.toDeclarations

theorem usageOf_eq_ok {p : Program} {name : String} {u : Usage} (h : p.usageOf name = .ok u) :
    ∃ e, p.entries.get? name = some e ∧ (e.analyzeOnce p.toDeclarations).1 = .ok u := by
  unfold usageOf at h
  split at h
  · next e he => exact ⟨e, he, h⟩
  · cases h

theorem usageOf_of_some {p : Program} {name : String} {e : EntryPoint}
    (he : p.entries.get? name = some e) :
    p.usageOf name = (e.analyzeOnce p.toDeclarations).1 := by
  rw [usageOf, he]

theorem Sound.of_agrees {p q : Program} (hp : p.Sound) (h : p.Agrees q) : q.Sound where
  apart := by
    rw [h.declarations]
    exact hp.apart
  declared name u hu := by
    rw [h.declarations]
    exact hp.declared name u ((h.usage name).symm.trans hu)

theorem Sound.of_declares {p q : Program} (hp : p.Sound) (h : Declares p q) : q.Sound where
  apart := h.apart hp.apart
  declared name u hu := by
    obtain ⟨e, he, hu⟩ := usageOf_eq_ok hu
    rcases h.added name e he with hold | ⟨stage, body, rfl⟩
    · apply EntryPoint.declared_of_extends h.declarations.toExtends ?_ hu
      intro v hv
      exact hp.declared name v ((usageOf_of_some hold).trans hv)
    · rcases EntryPoint.analyzeOnce_eq_ok hu with hremembered | ⟨-, block, hnew⟩
      · cases hremembered
      · exact Usage.declared_of_eq_ok hnew

theorem Sound.accept {p q : Program} {a : Action} (hp : p.Sound) (h : Action.Accepts p a q) :
    q.Sound := by
  rcases h.declares_or_asks with hdeclares | ⟨k, rfl⟩
  · exact hp.of_declares hdeclares
  · exact hp.of_agrees (k.answers.ask_agrees p)

theorem sound_empty : Program.empty.Sound where
  apart := ⟨fun _ hn ↦ (by cases hn), fun _ hn ↦ (by cases hn), fun _ hn ↦ (by cases hn)⟩
  declared _ _ hu := by
    obtain ⟨e, he, -⟩ := usageOf_eq_ok hu
    cases he

theorem Reachable.sound {p : Program} (h : p.Reachable) : p.Sound :=
  h.invariant Sound sound_empty fun _ _ _ hp haccepts ↦ hp.accept haccepts

end Program

end Shading
