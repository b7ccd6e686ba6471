import Shading.Proofs.Emission.Persistence
import Shading.Proofs.Program.Lockstep

/-!
# Answers that stay

Once a question about an entry point has an answer, it has the same answer ever after, whatever is
declared and asked in between, and it is the answer that a program without any memory would give.
-/

namespace Shading

/-! ### Programs without memory -/

namespace EntryPoint

/-- The entry point as it was declared. -/
def forget (e : EntryPoint) : EntryPoint :=
  .new e.stage e.body

/-- What is remembered of the recording is what another recording would give. -/
def Recalled (e : EntryPoint) : Prop :=
  ∀ outcome, e.recorded = some outcome → outcome = e.record

variable {e : EntryPoint}

theorem Recalled.recordOnce_eq (h : e.Recalled) : e.recordOnce.1 = e.record := by
  obtain ⟨stage, body, recorded, analyzed⟩ := e
  cases recorded with
  | none => rfl
  | some outcome => exact h outcome rfl

theorem Recalled.recordOnce (h : e.Recalled) : e.recordOnce.2.Recalled := by
  obtain ⟨stage, body, recorded, analyzed⟩ := e
  cases recorded with
  | some outcome => exact h
  | none =>
      intro outcome houtcome
      cases houtcome
      rfl

theorem Recalled.analyzeOnce (h : e.Recalled) (d : Declarations) :
    (e.analyzeOnce d).2.Recalled := by
  have hrecord := h.recordOnce
  obtain ⟨stage, body, recorded, analyzed⟩ := e
  cases analyzed with
  | some outcome => exact h
  | none => cases recorded <;> exact hrecord

/-- A usage that was found is found under more declarations too. -/
theorem persists_analyzeOnce {d d' : Declarations} (h : d.Grows d') (e : EntryPoint) :
    Persists (e.analyzeOnce d).1 (e.analyzeOnce d').1 := by
  obtain ⟨stage, body, recorded, analyzed⟩ := e
  have hof : ∀ outcome : Except Error Block,
      Persists (outcome >>= Usage.of d stage) (outcome >>= Usage.of d' stage) :=
    fun outcome ↦ (Persists.refl outcome).bind fun block _ u ↦ Usage.of_eq_ok_of_grows h
  cases analyzed with
  | some outcome => exact .refl _
  | none => cases recorded <;> exact hof _

end EntryPoint

namespace Program

/-- The program as it was declared, before any question was asked. -/
def forget (p : Program) : Program :=
  { p with entries := p.entries.map EntryPoint.forget }

/-- No recording that is remembered is out of date. -/
def Recalled (p : Program) : Prop :=
  ∀ name e, p.entries.get? name = some e → e.Recalled

theorem Recalled.modify {p : Program} (hp : p.Recalled) (name : String) {e : EntryPoint}
    (he : e.Recalled) :
    Recalled { p with entries := p.entries.modify name fun _ ↦ e } := by
  intro other a ha
  rw [Table.get?_modify] at ha
  obtain ⟨b, hb, rfl⟩ := Option.map_eq_some_iff.mp ha
  split
  · exact he
  · exact hp other b hb

end Program

/-! ### Questions keep what is remembered right -/

theorem Question.recalls (k : Question) {p : Program} (hp : p.Recalled) :
    (k.query.ask p).2.2.Recalled := by
  apply k.preserves Program.Recalled ?_ hp
  intro p q hp hlearns
  cases hlearns with
  | recorded he => exact hp.modify _ (hp _ _ he).recordOnce
  | analyzed he => exact hp.modify _ ((hp _ _ he).analyzeOnce _)

namespace Program

theorem Recalled.accept {p q : Program} {a : Action} (hp : p.Recalled)
    (h : Action.Accepts p a q) : q.Recalled := by
  rcases h.declares_or_asks with hdeclares | ⟨k, rfl⟩
  · intro name e he
    rcases hdeclares.added name e he with hold | ⟨stage, body, rfl⟩
    · exact hp name e hold
    · intro outcome houtcome
      cases houtcome
  · exact k.recalls hp

theorem Reachable.recalled {p : Program} (h : p.Reachable) : p.Recalled := by
  refine h.invariant Recalled ?_ fun _ _ _ hp haccepts ↦ hp.accept haccepts
  intro name e he
  cases he

/-! ### Answers of one program in another -/

/-- All that the first program has and finds out, the second one has and finds out. -/
structure Confirms (p q : Program) : Prop where
  declarations : p.toDeclarations.Keeps q.toDeclarations
  stage : ∀ name, Persists (p.stageOf name) (q.stageOf name)
  block : ∀ name, Persists (p.blockOf name) (q.blockOf name)
  usage : ∀ name, Persists (p.usageOf name) (q.usageOf name)

theorem Confirms.refl (p : Program) : Confirms p p :=
  ⟨.refl _, fun _ ↦ .refl _, fun _ ↦ .refl _, fun _ ↦ .refl _⟩

theorem Confirms.trans {p q r : Program} (h : Confirms p q) (h' : Confirms q r) :
    Confirms p r where
  declarations := h.declarations.trans h'.declarations
  stage name := (h.stage name).trans (h'.stage name)
  block name := (h.block name).trans (h'.block name)
  usage name := (h.usage name).trans (h'.usage name)

theorem Agrees.confirms {p q : Program} (h : p.Agrees q) : Confirms p q where
  declarations := by
    rw [h.declarations]
    exact .refl _
  stage name := persists_of_eq (h.stage name)
  block name := persists_of_eq (h.block name)
  usage name := persists_of_eq (h.usage name)

theorem Declares.confirms {p q : Program} (h : Declares p q) : Confirms p q := by
  refine ⟨h.declarations, ?_, ?_, ?_⟩
  · intro name stage hstage
    unfold stageOf at hstage ⊢
    split at hstage
    · next e he => rwa [h.entries name e he]
    · cases hstage
  · intro name body hbody
    unfold blockOf at hbody ⊢
    split at hbody
    · next e he => rwa [h.entries name e he]
    · cases hbody
  · intro name u hu
    obtain ⟨e, he, hu⟩ := usageOf_eq_ok hu
    rw [usageOf_of_some (h.entries name e he)]
    exact EntryPoint.persists_analyzeOnce h.declarations.grows e u hu

theorem confirms_of_accepts {p q : Program} {a : Action} (h : Action.Accepts p a q) :
    Confirms p q := by
  rcases h.declares_or_asks with hdeclares | ⟨k, rfl⟩
  · exact hdeclares.confirms
  · exact (k.answers.ask_agrees p).confirms

theorem confirms_perform (p : Program) (a : Action) : Confirms p (a.perform p) := by
  rcases a.perform_eq_or_accepts p with hsame | haccepts
  · rw [hsame]
    exact .refl p
  · exact confirms_of_accepts haccepts

theorem get?_forget (p : Program) (name : String) :
    p.forget.entries.get? name = (p.entries.get? name).map EntryPoint.forget :=
  Table.get?_map

theorem stageOf_forget (p : Program) (name : String) :
    p.forget.stageOf name = p.stageOf name := by
  unfold stageOf
  rw [get?_forget]
  cases p.entries.get? name <;> rfl

theorem Recalled.blockOf_forget {p : Program} (hp : p.Recalled) (name : String) :
    p.forget.blockOf name = p.blockOf name := by
  unfold blockOf
  rw [get?_forget]
  cases he : p.entries.get? name with
  | none => rfl
  | some e => exact (hp name e he).recordOnce_eq.symm

/-- What a program remembers is what it would find out again. -/
theorem Reachable.confirms_forget {p : Program} (hp : p.Reachable) : Confirms p p.forget := by
  have hblock := hp.recalled.blockOf_forget
  refine ⟨.refl _, fun name ↦ persists_of_eq (p.stageOf_forget name),
    fun name ↦ persists_of_eq (hblock name), ?_⟩
  intro name u hu
  obtain ⟨stage, body, hstage, hbody, hof⟩ := hp.fresh name u hu
  obtain ⟨e, he, -⟩ := usageOf_eq_ok hu
  rw [← hblock] at hbody
  unfold stageOf at hstage
  unfold blockOf at hbody
  rw [he] at hstage
  rw [get?_forget, he] at hbody
  cases hstage
  -- The entry point has nothing remembered, so its body is recorded and analyzed.
  rw [usageOf_of_some (e := e.forget) (by rw [get?_forget, he]; rfl)]
  exact bind_eq_ok.mpr ⟨body, hbody, hof⟩

namespace Confirms

variable {p q : Program} (h : Confirms p q)
include h

theorem peerUsageOf (name : String) (stage : Stage) (peer : Option String) :
    Persists (p.peerUsageOf name stage peer) (q.peerUsageOf name stage peer) := by
  cases peer with
  | none => exact .refl _
  | some peer =>
      apply (h.stage peer).bind
      intro peerStage _
      split
      · exact .refl _
      · apply (h.usage peer).bind
        intro _ _
        exact .refl _

theorem layoutOf (hp : p.Sound) (name : String) (peer : Option String) :
    Persists (p.layoutOf name peer) (q.layoutOf name peer) := by
  apply (h.usage name).bind
  intro own hown
  apply (h.stage name).bind
  intro stage _
  apply (h.peerUsageOf name stage peer).bind
  intro other hother
  have hown := hp.declared name own hown
  have hpeer := hp.declared_peer hother
  cases stage with
  | vertex =>
      apply Layout.persists_allocate h.declarations
      rintro u (hu | hu)
      · cases hu
        exact hown
      · exact hpeer u hu
  | fragment =>
      apply Layout.persists_allocate h.declarations
      rintro u (hu | hu)
      · exact hpeer u hu
      · cases hu
        exact hown

theorem emissionOf (hp : p.Sound) {name : String} {peer : Option String} {e : Emission}
    (he : p.emissionOf name peer = .ok e) :
    q.emissionOf name peer = .ok (e.under q.toDeclarations) := by
  obtain ⟨own, hown, he⟩ := bind_eq_ok.mp he
  obtain ⟨layout, hlayout, he⟩ := bind_eq_ok.mp he
  obtain ⟨stage, hstage, he⟩ := bind_eq_ok.mp he
  obtain ⟨body, hbody, he⟩ := bind_eq_ok.mp he
  cases he
  unfold Program.emissionOf
  rw [h.usage name own hown, ok_bind, h.layoutOf hp name peer layout hlayout, ok_bind,
    h.stage name stage hstage, ok_bind, h.block name body hbody]
  rfl

end Confirms

end Program

namespace Question

def answer (k : Question) (p : Program) : Except Error k.Answer :=
  (k.query.ask p).1

theorem persists_outcome {p q : Program} (hp : p.Reachable) (h : p.Confirms q) (k : Question) :
    Persists (k.outcome p) (k.outcome q) := by
  cases k with
  | block name => exact h.block name
  | usage name => exact h.usage name
  | layout name peer => exact h.layoutOf hp.sound name peer
  | glsl name options =>
      intro s hs
      obtain ⟨e, he, hemit⟩ := bind_eq_ok.mp hs
      obtain ⟨hdecls, -, husage, -⟩ := hp.emission he
      have hdeclared := hp.sound.declared name e.usage husage
      have hkeeps : e.decls.Keeps q.toDeclarations := hdecls ▸ h.declarations
      have hstays := Glsl.persists_emit hkeeps (hdecls ▸ hdeclared) options s hemit
      exact bind_eq_ok.mpr ⟨_, h.emissionOf hp.sound he, hstays⟩
  | wgsl name options =>
      intro m hm
      obtain ⟨e, he, hemit⟩ := bind_eq_ok.mp hm
      obtain ⟨hdecls, -⟩ := hp.emission he
      have hkeeps : e.decls.Keeps q.toDeclarations := hdecls ▸ h.declarations
      have hstays := Wgsl.persists_emit hkeeps options m hemit
      exact bind_eq_ok.mpr ⟨_, h.emissionOf hp.sound he, hstays⟩

theorem persists_answer {p q : Program} (hp : p.Reachable) (h : p.Confirms q) (k : Question) :
    Persists (k.answer p) (k.answer q) := by
  unfold answer
  rw [k.answers.ask_eq, k.answers.ask_eq]
  exact persists_outcome hp h k

end Question

/-! ### Runs -/

namespace Action

theorem confirms_foldl (p : Program) (actions : List Action) :
    p.Confirms (actions.foldl perform p) := by
  induction actions generalizing p with
  | nil => exact .refl p
  | cons a actions ih => exact (p.confirms_perform a).trans (ih _)

/-- An answer that is given at some time of a run is given at all later times, and without any
memory as well. -/
theorem answers_stay (before after : List Action) (k : Question) (v : k.Answer)
    (h : k.answer (run before) = .ok v) :
    k.answer (run (before ++ after)) = .ok v ∧
      k.answer (run (before ++ after)).forget = .ok v := by
  have hbefore := reachable_run before
  have hafter := reachable_run (before ++ after)
  have hconfirms : (run before).Confirms (run (before ++ after)) := by
    rw [run_append]
    exact confirms_foldl _ after
  have hstays := Question.persists_answer hbefore hconfirms k v h
  exact ⟨hstays, Question.persists_answer hafter hafter.confirms_forget k v hstays⟩

/-- Two entry points that share a varying, one of them through a helper and a constant. -/
def panning : List Action :=
  let vector := Ty.ofPrim (.vector .float .two)
  let uv := Term.ofHandle vector (.varying "uv")
  let offset := Term.ofHandle vector (.uniform "offset")
  [uniform "offset" vector ⟨0, some 1⟩, sampler "image" .plane ⟨0, none⟩,
    varying "uv" ⟨vector, none, none, none⟩, constant offset,
    helper "shift" [] (return some (.arithmetic .add offset (.ofHandle vector (.constant 0)))),
    entry "vs" .vertex (Recorder.set uv (.call (.helper "shift") vector [])),
    entry "fs" .fragment (Recorder.leave (.sample .plane "image" uv))]

/-- More declarations, of which the second and the third fail, and questions. -/
def extending : List Action :=
  let vector := Ty.ofPrim (.vector .float .two)
  [ask (.wgsl "vs" ⟨true, some "fs"⟩), uniform "image" .float ⟨0, some 1⟩,
    varying "uv" ⟨.float, none, none, none⟩, uniform "gain" .float ⟨0, some 0⟩,
    constant (.ofHandle .float (.uniform "gain")),
    helper "first" [] (return some (.ofHandle .float (.constant 1))),
    entry "late" .vertex (Recorder.set (.ofHandle vector (.varying "uv"))
      (.call (.helper "shift") vector [])),
    ask (.layout "late" (some "fs")), ask (.usage "missing")]

theorem answers_stay_extending :
    ∃ m, (Question.wgsl "vs" ⟨true, some "fs"⟩).answer (run panning) = .ok m ∧
      (Question.wgsl "vs" ⟨true, some "fs"⟩).answer (run (panning ++ extending)) = .ok m ∧
      (Question.wgsl "vs" ⟨true, some "fs"⟩).answer (run (panning ++ extending)).forget = .ok m ∧
      (run (panning ++ extending)).usesUniformName "gain" = true ∧
      (run panning).usesUniformName "gain" = false := by
  have hsome :
      ((Question.wgsl "vs" ⟨true, some "fs"⟩).answer (run panning)).toOption.isSome = true := by
    decide +kernel
  obtain ⟨m, hm⟩ := Option.isSome_iff_exists.mp hsome
  have hm := eq_ok_of_toOption hm
  obtain ⟨hstays, hfresh⟩ := answers_stay panning extending _ m hm
  exact ⟨m, hm, hstays, hfresh, by decide +kernel, by decide +kernel⟩

end Action

end Shading
