import Shading.Proofs.Program.Ahead

/-!
# Questions in between

Two runs with the same declarations, of which the second asks more questions.  A question leaves
nothing behind but outcomes that are remembered, and a success is what any later analysis would find
as well.  A failure is remembered too, though later declarations may mend it.  So the runs give the
same answers as long as no additional question is the first to find that an entry point fails, and
even then a difference is due to a failure that one of the runs remembers.
-/

namespace Shading

/-! ### Programs without memory -/

namespace Program

theorem forget_perform {a : Action} (ha : ¬ a.IsQuestion) (p : Program) :
    (a.perform p).forget = a.perform p.forget := by
  obtain ⟨d, t⟩ := p
  have hnames : ∀ name, (t.map EntryPoint.forget).contains name = t.contains name :=
    fun _ ↦ Table.contains_map
  obtain ⟨d', ht, hforget⟩ := Action.perform_alike ha d hnames
  have henter : (a.enter t).map EntryPoint.forget = a.enter (t.map EntryPoint.forget) := by
    cases a with
    | entry name stage body => exact Table.map_add
    | _ => rfl
  calc (a.perform ⟨d, t⟩).forget = ⟨d', (a.enter t).map EntryPoint.forget⟩ := by rw [ht]; rfl
    _ = ⟨d', a.enter (t.map EntryPoint.forget)⟩ := by rw [henter]
    _ = a.perform (forget ⟨d, t⟩) := hforget.symm

theorem forget_ask (k : Question) (p : Program) : (k.query.ask p).2.2.forget = p.forget := by
  apply k.preserves (fun q ↦ q.forget = p.forget) ?_ rfl
  intro q r hq hlearns
  rw [← hq]
  have hmodify : ∀ {name : String} {e e' : EntryPoint}, q.entries.get? name = some e →
      e'.forget = e.forget →
      forget { q with entries := q.entries.modify name fun _ ↦ e' } = q.forget := by
    intro name e e' he hforget
    rw [forget, forget, Table.map_modify he hforget]
  cases hlearns with
  | @recorded name e he =>
      apply hmodify he
      obtain ⟨stage, body, recorded, analyzed⟩ := e
      cases recorded <;> rfl
  | @analyzed name e he =>
      apply hmodify he
      obtain ⟨stage, body, recorded, analyzed⟩ := e
      cases analyzed <;> cases recorded <;> rfl

/-- A failure that is remembered, although an analysis that is made now would not fail with it. -/
def Stale (p : Program) (name : String) (e : Error) : Prop :=
  p.remembered name = some (.error e) ∧ (Question.usage name).answer p.forget ≠ .error e

/-- The second outcome, or a stale failure of one of the entry points `names`. -/
def Answering {α : Type} (p : Program) (names : List String) (x y : Except Error α) : Prop :=
  x = y ∨ ∃ name ∈ names, ∃ e, p.Stale name e ∧ x = .error e

namespace Answering

variable {α β : Type} {p : Program} {names names' : List String}

theorem of_eq {x y : Except Error α} (h : x = y) : p.Answering names x y :=
  .inl h

theorem mono {x y : Except Error α} (h : p.Answering names x y)
    (hnames : ∀ n ∈ names, n ∈ names') : p.Answering names' x y := by
  rcases h with hsame | ⟨n, hn, e, hstale, hx⟩
  · exact .inl hsame
  · exact .inr ⟨n, hnames n hn, e, hstale, hx⟩

theorem bind {x y : Except Error α} {f g : α → Except Error β} (h : p.Answering names x y)
    (hf : ∀ a, p.Answering names (f a) (g a)) : p.Answering names (x >>= f) (y >>= g) := by
  rcases h with rfl | ⟨n, hn, e, hstale, rfl⟩
  · cases x with
    | error e => exact .inl rfl
    | ok a => exact hf a
  · exact .inr ⟨n, hn, e, hstale, rfl⟩

end Answering

namespace Reachable

variable {p : Program} (hp : p.Reachable)
include hp

theorem answering_usage (name : String) :
    p.Answering [name] (p.usageOf name) (p.forget.usageOf name) := by
  cases he : p.entries.get? name with
  | none =>
      apply Answering.of_eq
      rw [usageOf, usageOf, get?_forget, he]
      rfl
  | some e =>
      have hrecalled := hp.recalled name e he
      have hnow : p.forget.usageOf name = e.analyze p.toDeclarations :=
        usageOf_of_some (e := e.forget) (by rw [get?_forget, he]; rfl)
      cases hanalyzed : e.analyzed with
      | none =>
          apply Answering.of_eq
          rw [hnow, usageOf_of_some he, hrecalled.analyzeOnce_of_none hanalyzed]
      | some outcome =>
          have hkept : p.usageOf name = outcome := by
            rw [usageOf_of_some he, EntryPoint.analyzeOnce_of_some hanalyzed]
          cases outcome with
          | ok u =>
              apply Answering.of_eq
              rw [hkept, hp.confirms_forget.usage name u hkept]
          | error x =>
              by_cases hsame : p.forget.usageOf name = .error x
              · exact .of_eq (hkept.trans hsame.symm)
              · refine .inr ⟨name, List.mem_singleton_self name, x, ⟨?_, ?_⟩, hkept⟩
                · rw [remembered_of_some he, hanalyzed]
                · rw [Question.answer, (Question.usage name).answers.ask_eq]
                  exact hsame

theorem answering_layout (name : String) (peer : Option String) :
    p.Answering (name :: peer.toList) (p.layoutOf name peer) (p.forget.layoutOf name peer) := by
  refine ((hp.answering_usage name).mono (by simp)).bind fun own ↦ ?_
  refine (Answering.of_eq (p.stageOf_forget name).symm).bind fun stage ↦ ?_
  refine Answering.bind ?_ fun other ↦ ?_
  · cases peer with
    | none => exact .of_eq rfl
    | some peer =>
        refine (Answering.of_eq (p.stageOf_forget peer).symm).bind fun peerStage ↦ ?_
        split
        · exact .of_eq rfl
        · exact ((hp.answering_usage peer).mono (by simp)).bind fun _ ↦ .of_eq rfl
  · cases stage <;> exact .of_eq rfl

theorem answering_emission (name : String) (peer : Option String) :
    p.Answering (name :: peer.toList) (p.emissionOf name peer)
      (p.forget.emissionOf name peer) := by
  refine ((hp.answering_usage name).mono (by simp)).bind fun own ↦ ?_
  refine (hp.answering_layout name peer).bind fun layout ↦ ?_
  refine (Answering.of_eq (p.stageOf_forget name).symm).bind fun stage ↦ ?_
  exact (Answering.of_eq (hp.recalled.blockOf_forget name).symm).bind fun _ ↦ .of_eq rfl

end Reachable

end Program

namespace Question

/-- The entry points whose analyses a question may need. -/
def subjects : Question → List String
  | block _ => []
  | usage name => [name]
  | layout name peer => name :: peer.toList
  | glsl name _ => [name]
  | wgsl name options => name :: options.peer.toList

/-- A program answers as it would without any memory, or with a stale failure. -/
theorem answering {p : Program} (hp : p.Reachable) (k : Question) :
    p.Answering k.subjects (k.answer p) (k.answer p.forget) := by
  unfold answer
  rw [k.answers.ask_eq, k.answers.ask_eq]
  cases k with
  | block name => exact .of_eq (hp.recalled.blockOf_forget name).symm
  | usage name => exact hp.answering_usage name
  | layout name peer => exact hp.answering_layout name peer
  | glsl name options => exact (hp.answering_emission name none).bind fun _ ↦ .of_eq rfl
  | wgsl name options =>
      exact (hp.answering_emission name options.peer).bind fun _ ↦ .of_eq rfl

end Question

/-! ### Runs with more questions -/

namespace Action

theorem run_concat (actions : List Action) (a : Action) :
    run (actions ++ [a]) = a.perform (run actions) :=
  run_append actions [a]

/-- The second run has the actions of the first one in their order, and more questions anywhere in
between. -/
inductive Inserts : List Action → List Action → Prop
  | nil : Inserts [] []
  | both {base more : List Action} (h : Inserts base more) (a : Action) :
      Inserts (base ++ [a]) (more ++ [a])
  | extra {base more : List Action} (h : Inserts base more) (k : Question) :
      Inserts base (more ++ [ask k])

/-- One of the additional questions is the first to analyze some entry point, and that fails. -/
inductive FailsFirst : List Action → List Action → Prop
  | intro {base base' more more' : List Action} {k : Question} {name : String} {e : Error}
      (hbefore : Inserts base more) (hafter : Inserts base' more')
      (hnew : (run more).remembered name = none)
      (hfails : (run (more ++ [ask k])).remembered name = some (.error e)) :
      FailsFirst (base ++ base') (more ++ ask k :: more')

theorem FailsFirst.both {base more : List Action} (h : FailsFirst base more) (a : Action) :
    FailsFirst (base ++ [a]) (more ++ [a]) := by
  obtain ⟨hbefore, hafter, hnew, hfails⟩ := h
  have hlater := FailsFirst.intro hbefore (hafter.both a) hnew hfails
  simpa using hlater

theorem FailsFirst.extra {base more : List Action} (h : FailsFirst base more) (k : Question) :
    FailsFirst base (more ++ [ask k]) := by
  obtain ⟨hbefore, hafter, hnew, hfails⟩ := h
  have hlater := FailsFirst.intro hbefore (hafter.extra k) hnew hfails
  simpa using hlater

/-- Until an additional question finds the first failure, all that the second run remembers in
addition are successes. -/
theorem Inserts.ahead_or_failsFirst {base more : List Action} (h : Inserts base more) :
    (run base).Ahead (fun outcome ↦ ∃ u, outcome = .ok u) (run more) ∨ FailsFirst base more := by
  induction h with
  | nil => exact .inl (.refl (reachable_run []).recalled)
  | both h a ih =>
      rcases ih with hahead | hfails
      · left
        rw [run_concat, run_concat]
        by_cases ha : a.IsQuestion
        · obtain ⟨k, rfl⟩ := ha
          exact (Program.Ahead.compatible.question k [] _ _ hahead).2
        · exact hahead.perform ha
      · exact .inr (hfails.both a)
  | @extra base more h k ih =>
      rcases ih with hahead | hfails
      · by_cases hnew : ∃ name e, (run more).remembered name = none ∧
          (run (more ++ [ask k])).remembered name = some (.error e)
        · obtain ⟨name, e, hnone, hsome⟩ := hnew
          have hfirst := FailsFirst.intro h .nil hnone hsome
          rw [List.append_nil] at hfirst
          exact .inr hfirst
        · left
          have hstep := k.ahead (reachable_run more).recalled
          rw [run_concat] at hnew ⊢
          refine hahead.trans hstep fun name hnone outcome houtcome ↦ ?_
          cases outcome with
          | ok u => exact ⟨u, rfl⟩
          | error e => exact absurd ⟨name, e, hnone, houtcome⟩ hnew
      · exact .inr (hfails.extra k)

/-- Without memory the runs cannot be told apart. -/
theorem Inserts.forget_eq {base more : List Action} (h : Inserts base more) :
    (run more).forget = (run base).forget := by
  induction h with
  | nil => rfl
  | both h a ih =>
      rw [run_concat, run_concat]
      by_cases ha : a.IsQuestion
      · obtain ⟨k, rfl⟩ := ha
        exact (Program.forget_ask k _).trans (ih.trans (Program.forget_ask k _).symm)
      · rw [Program.forget_perform ha, Program.forget_perform ha, ih]
  | extra h k ih =>
      rw [run_concat]
      exact (Program.forget_ask k _).trans ih

/-- A question has the same answer in both runs, unless one of the additional questions was the
first to analyze some entry point and that failed.  Then one of the runs answers with a failure that
it remembers of an entry point the question is about, and that it would not find any more. -/
theorem answer_of_inserts {base more : List Action} (h : Inserts base more) (k : Question) :
    k.answer (run more) = k.answer (run base) ∨
      FailsFirst base more ∧ ∃ p, (p = run base ∨ p = run more) ∧ ∃ name ∈ k.subjects,
        ∃ e, p.Stale name e ∧ k.answer p = .error e := by
  rcases h.ahead_or_failsFirst with hahead | hfails
  · left
    obtain ⟨hsame, -⟩ := Program.Ahead.compatible.question k [] _ _ hahead
    have houtcome : (k.query.exec [] (run more)).1.1 = (k.query.exec [] (run base)).1.1 :=
      congrArg Prod.fst hsame
    exact houtcome
  · rcases k.answering (reachable_run base) with hbase | ⟨name, hname, e, hstale, hanswer⟩
    · rcases k.answering (reachable_run more) with hmore | ⟨name, hname, e, hstale, hanswer⟩
      · left
        rw [hmore, hbase, h.forget_eq]
      · exact .inr ⟨hfails, run more, .inr rfl, name, hname, e, hstale, hanswer⟩
    · exact .inr ⟨hfails, run base, .inl rfl, name, hname, e, hstale, hanswer⟩

/-- An entry point that comes before the uniform it uses. -/
def late : List Action :=
  let vector := Ty.ofPrim (.vector .float .four)
  [entry "vs" .vertex (Recorder.leave (.ofHandle vector (.uniform "offset"))),
    uniform "offset" vector ⟨0, none⟩]

/-- The same with a question in between, when the uniform is still missing. -/
def lateAsked : List Action :=
  let vector := Ty.ofPrim (.vector .float .four)
  [entry "vs" .vertex (Recorder.leave (.ofHandle vector (.uniform "offset"))),
    ask (.usage "vs"), uniform "offset" vector ⟨0, none⟩]

theorem inserts_late : Inserts late lateAsked :=
  ((Inserts.nil.both _).extra _).both _

theorem isSome_answer_late :
    ((Question.usage "vs").answer (run late)).toOption.isSome = true ∧
      ((Question.usage "vs").answer (run lateAsked)).toOption.isSome = false := by
  constructor <;> decide +kernel

theorem answer_of_inserts_late : Inserts late lateAsked ∧ FailsFirst late lateAsked ∧ ∃ e,
    (run lateAsked).Stale "vs" e ∧ (Question.usage "vs").answer (run lateAsked) = .error e := by
  obtain ⟨hbase, hmore⟩ := isSome_answer_late
  rcases answer_of_inserts inserts_late (.usage "vs") with
    hsame | ⟨hfails, p, rfl | rfl, name, hname, e, hstale, hanswer⟩
  · rw [hsame, hbase] at hmore
    cases hmore
  · rw [hanswer] at hbase
    cases hbase
  · cases List.mem_singleton.mp hname
    exact ⟨inserts_late, hfails, e, hstale, hanswer⟩

/-- A question in between may change a later answer. -/
theorem answer_late_ne : Inserts late lateAsked ∧
    (Question.usage "vs").answer (run lateAsked) ≠ (Question.usage "vs").answer (run late) := by
  refine ⟨inserts_late, fun hsame ↦ ?_⟩
  obtain ⟨hbase, hmore⟩ := isSome_answer_late
  rw [hsame, hbase] at hmore
  cases hmore

end Action

end Shading
