import Shading.Proofs.Program.Stability

/-!
# Programs that were asked more

A question leaves nothing behind but outcomes that are remembered.  Two programs with the same
declarations, of which the second remembers more, give the same answers as long as what it remembers
in addition is what the first would find as well, and declarations on both sides keep this up if it
is a success.
-/

namespace Shading

/-! ### Entry points that were asked more -/

namespace EntryPoint

/-- The outcome of an analysis that is made now. -/
def analyze (d : Declarations) (e : EntryPoint) : Except Error Usage :=
  e.record >>= Usage.of d e.stage

theorem analyzeOnce_of_some {e : EntryPoint} {outcome : Except Error Usage}
    (h : e.analyzed = some outcome) (d : Declarations) : e.analyzeOnce d = (outcome, e) := by
  rw [analyzeOnce, h]

theorem Recalled.analyzeOnce_of_none {e : EntryPoint} (he : e.Recalled) (h : e.analyzed = none)
    (d : Declarations) : (e.analyzeOnce d).1 = e.analyze d := by
  have hrecord := he.recordOnce_eq
  obtain ⟨stage, body, recorded, analyzed⟩ := e
  cases h
  rw [analyze, ← hrecord]
  cases recorded <;> rfl

theorem analyzed_analyzeOnce (e : EntryPoint) (d : Declarations) :
    (e.analyzeOnce d).2.analyzed = some (e.analyzeOnce d).1 := by
  obtain ⟨stage, body, recorded, analyzed⟩ := e
  cases analyzed <;> rfl

/-- The second entry point is declared as the first one and remembers what the first one does, or in
addition the outcome of an analysis that is made now, if it is one of the `allowed` ones. -/
structure Ahead (allowed : Except Error Usage → Prop) (d : Declarations) (e e' : EntryPoint) :
    Prop where
  stage : e'.stage = e.stage
  body : e'.body = e.body
  recalled : e.Recalled
  recalled' : e'.Recalled
  analyzed : e'.analyzed = e.analyzed ∨
    e.analyzed = none ∧ allowed (e.analyze d) ∧ e'.analyzed = some (e.analyze d)

namespace Ahead

variable {allowed : Except Error Usage → Prop} {d d' : Declarations} {e e' e'' : EntryPoint}

theorem refl (he : e.Recalled) : Ahead allowed d e e :=
  ⟨rfl, rfl, he, he, .inl rfl⟩

theorem recordOnce_right (he : e.Recalled) : Ahead allowed d e e.recordOnce.2 := by
  have hlater := he.recordOnce
  obtain ⟨stage, body, recorded, analyzed⟩ := e
  cases recorded <;> exact ⟨rfl, rfl, he, hlater, .inl rfl⟩

theorem analyzeOnce_right (he : e.Recalled) :
    Ahead (fun _ ↦ True) d e (e.analyzeOnce d).2 := by
  have hlater := he.analyzeOnce d
  cases hanalyzed : e.analyzed with
  | some outcome =>
      rw [analyzeOnce_of_some hanalyzed]
      exact refl he
  | none =>
      have hfound := e.analyzed_analyzeOnce d
      rw [he.analyzeOnce_of_none hanalyzed] at hfound
      obtain ⟨stage, body, recorded, analyzed⟩ := e
      cases hanalyzed
      cases recorded <;> exact ⟨rfl, rfl, he, hlater, .inr ⟨rfl, trivial, hfound⟩⟩

variable (h : Ahead allowed d e e')
include h

theorem record_eq : e'.record = e.record := by
  rw [record, h.body]
  rfl

theorem analyze_eq : e'.analyze d = e.analyze d := by
  rw [analyze, h.record_eq, h.stage]
  rfl

theorem recordOnce_eq : e'.recordOnce.1 = e.recordOnce.1 := by
  rw [h.recalled.recordOnce_eq, h.recalled'.recordOnce_eq, h.record_eq]

/-- What is remembered in addition is what would be found. -/
theorem analyzeOnce_eq : (e'.analyzeOnce d).1 = (e.analyzeOnce d).1 := by
  rcases h.analyzed with hsame | ⟨hnone, -, hsome⟩
  · cases hanalyzed : e.analyzed with
    | some outcome =>
        rw [analyzeOnce_of_some hanalyzed, analyzeOnce_of_some (hsame.trans hanalyzed)]
    | none =>
        rw [h.recalled.analyzeOnce_of_none hanalyzed,
          h.recalled'.analyzeOnce_of_none (hsame.trans hanalyzed), h.analyze_eq]
  · rw [analyzeOnce_of_some hsome, h.recalled.analyzeOnce_of_none hnone]

/-- A second step ahead, if what it adds is allowed. -/
theorem trans (h' : Ahead (fun _ ↦ True) d e' e'')
    (hallowed : e'.analyzed = none → ∀ outcome, e''.analyzed = some outcome → allowed outcome) :
    Ahead allowed d e e'' := by
  refine ⟨h'.stage.trans h.stage, h'.body.trans h.body, h.recalled, h'.recalled', ?_⟩
  rcases h'.analyzed with hsame' | ⟨hnone', -, hsome'⟩
  · rw [hsame']
    exact h.analyzed
  · rcases h.analyzed with hsame | ⟨-, -, hsome⟩
    · have hsome'' := h.analyze_eq ▸ hsome'
      exact .inr ⟨hsame.symm.trans hnone', hallowed hnone' _ hsome'', hsome''⟩
    · cases hnone'.symm.trans hsome

theorem recordOnce : Ahead allowed d e.recordOnce.2 e'.recordOnce.2 := by
  have hleft : Ahead allowed d e _ := recordOnce_right h.recalled
  have hright : Ahead allowed d e' _ := recordOnce_right h.recalled'
  have hkept : ∀ a : EntryPoint, a.recordOnce.2.analyzed = a.analyzed := by
    rintro ⟨stage, body, recorded, analyzed⟩
    cases recorded <;> rfl
  refine ⟨?_, ?_, hleft.recalled', hright.recalled', ?_⟩
  · rw [hleft.stage, hright.stage, h.stage]
  · rw [hleft.body, hright.body, h.body]
  · rw [hkept, hkept, hleft.analyze_eq]
    exact h.analyzed

theorem analyzeOnce : Ahead allowed d (e.analyzeOnce d).2 (e'.analyzeOnce d).2 := by
  have hleft := analyzeOnce_right (d := d) h.recalled
  have hright := analyzeOnce_right (d := d) h.recalled'
  refine ⟨?_, ?_, hleft.recalled', hright.recalled', .inl ?_⟩
  · rw [hleft.stage, hright.stage, h.stage]
  · rw [hleft.body, hright.body, h.body]
  · rw [analyzed_analyzeOnce, analyzed_analyzeOnce, h.analyzeOnce_eq]

end Ahead

/-- A success would still be found under more declarations. -/
theorem Ahead.of_grows {d d' : Declarations} {e e' : EntryPoint}
    (h : Ahead (fun outcome ↦ ∃ u, outcome = .ok u) d e e') (hgrows : d.Grows d') :
    Ahead (fun outcome ↦ ∃ u, outcome = .ok u) d' e e' := by
  refine ⟨h.stage, h.body, h.recalled, h.recalled', ?_⟩
  rcases h.analyzed with hsame | ⟨hnone, ⟨u, hu⟩, hsome⟩
  · exact .inl hsame
  · obtain ⟨block, hblock, hof⟩ := bind_eq_ok.mp hu
    have hlater : e.analyze d' = .ok u :=
      bind_eq_ok.mpr ⟨block, hblock, Usage.of_eq_ok_of_grows hgrows hof⟩
    exact .inr ⟨hnone, ⟨u, hlater⟩, by rw [hsome, hu, hlater]⟩

end EntryPoint

/-! ### What a program remembers -/

namespace Program

/-- What is remembered of the analysis of an entry point. -/
def remembered (p : Program) (name : String) : Option (Except Error Usage) :=
  (p.entries.get? name).bind (·.analyzed)

theorem remembered_of_some {p : Program} {name : String} {e : EntryPoint}
    (he : p.entries.get? name = some e) : p.remembered name = e.analyzed := by
  rw [remembered, he, Option.bind_some]

structure Ahead (allowed : Except Error Usage → Prop) (p q : Program) : Prop where
  declarations : q.toDeclarations = p.toDeclarations
  entries : ∀ name, Option.Rel (EntryPoint.Ahead allowed p.toDeclarations)
    (p.entries.get? name) (q.entries.get? name)

namespace Ahead

variable {allowed : Except Error Usage → Prop} {p q r : Program}

theorem refl (hp : p.Recalled) : Ahead allowed p p := by
  refine ⟨rfl, fun name ↦ ?_⟩
  cases he : p.entries.get? name with
  | none => exact .none
  | some e => exact .some (.refl (hp name e he))

theorem cases (h : Ahead allowed p q) (name : String) :
    p.entries.get? name = none ∧ q.entries.get? name = none ∨
      ∃ e e', p.entries.get? name = some e ∧ q.entries.get? name = some e' ∧
        e.Ahead allowed p.toDeclarations e' := by
  have hname := h.entries name
  generalize p.entries.get? name = x at hname ⊢
  generalize q.entries.get? name = y at hname ⊢
  cases hname with
  | none => exact .inl ⟨rfl, rfl⟩
  | some he => exact .inr ⟨_, _, rfl, rfl, he⟩

theorem modify (h : Ahead allowed p q) (name : String) {e e' : EntryPoint}
    (he : e.Ahead allowed p.toDeclarations e') :
    Ahead allowed { p with entries := p.entries.modify name fun _ ↦ e }
      { q with entries := q.entries.modify name fun _ ↦ e' } := by
  refine ⟨h.declarations, fun other ↦ ?_⟩
  rw [Table.get?_modify, Table.get?_modify]
  rcases h.cases other with ⟨hp, hq⟩ | ⟨a, a', hp, hq, ha⟩
  · rw [hp, hq]
    exact .none
  · rw [hp, hq]
    apply Option.Rel.some
    split
    · exact he
    · exact ha

/-- Queries answer alike, and afterwards the same is remembered in addition on both sides. -/
theorem compatible : Query.Compatible (Ahead allowed) where
  declarations h := h.declarations
  stage h name := by
    unfold stageOf
    rcases h.cases name with ⟨hp, hq⟩ | ⟨e, e', hp, hq, he⟩
    · rw [hp, hq]
    · rw [hp, hq]
      exact congrArg Except.ok he.stage
  block name := by
    intro w p q h
    rcases h.cases name with ⟨hp, hq⟩ | ⟨e, e', hp, hq, he⟩
    · rw [Query.block, Query.exec_bind, Query.exec_bind, Query.exec_entry_of_none hp,
        Query.exec_entry_of_none hq]
      exact ⟨rfl, h⟩
    · rw [Query.exec_block_of_some hp, Query.exec_block_of_some hq, he.recordOnce_eq]
      exact ⟨rfl, h.modify name he.recordOnce⟩
  usage name := by
    intro w p q h
    rcases h.cases name with ⟨hp, hq⟩ | ⟨e, e', hp, hq, he⟩
    · rw [Query.usage, Query.exec_bind, Query.exec_bind, Query.exec_entry_of_none hp,
        Query.exec_entry_of_none hq]
      exact ⟨rfl, h⟩
    · have hlater := h.modify name he.analyzeOnce
      rw [Query.exec_usage_of_some hp, Query.exec_usage_of_some hq, h.declarations,
        he.analyzeOnce_eq]
      rw [h.declarations] at hlater
      exact ⟨rfl, hlater⟩

theorem trans (h : Ahead allowed p q) (h' : Ahead (fun _ ↦ True) q r)
    (hallowed : ∀ name, q.remembered name = none → ∀ outcome,
      r.remembered name = some outcome → allowed outcome) : Ahead allowed p r := by
  refine ⟨h'.declarations.trans h.declarations, fun name ↦ ?_⟩
  rcases h.cases name with ⟨hp, hq⟩ | ⟨e, e', hp, hq, he⟩
  · rcases h'.cases name with ⟨-, hr⟩ | ⟨a, -, ha, -⟩
    · rw [hp, hr]
      exact .none
    · cases hq.symm.trans ha
  · rcases h'.cases name with ⟨hnone, -⟩ | ⟨a, e'', ha, hr, he'⟩
    · cases hnone.symm.trans hq
    · cases hq.symm.trans ha
      rw [h.declarations] at he'
      have hname := hallowed name
      rw [remembered_of_some hq, remembered_of_some hr] at hname
      rw [hp, hr]
      exact .some (he.trans he' hname)

end Ahead

theorem Recalled.ahead_modify {p : Program} (hp : p.Recalled) {name : String} {e e' : EntryPoint}
    (he : p.entries.get? name = some e)
    (hahead : e.Ahead (fun _ ↦ True) p.toDeclarations e') :
    Ahead (fun _ ↦ True) p { p with entries := p.entries.modify name fun _ ↦ e' } := by
  refine ⟨rfl, fun other ↦ ?_⟩
  rw [Table.get?_modify]
  cases ha : p.entries.get? other with
  | none => exact .none
  | some a =>
      apply Option.Rel.some
      split
      · next hother =>
          subst hother
          cases he.symm.trans ha
          exact hahead
      · exact .refl (hp other a ha)

end Program

/-- All that a question leaves behind is what a later one would find. -/
theorem Question.ahead (k : Question) {p : Program} (hp : p.Recalled) :
    p.Ahead (fun _ ↦ True) (k.query.ask p).2.2 := by
  have hinv : p.Ahead (fun _ ↦ True) (k.query.ask p).2.2 ∧ (k.query.ask p).2.2.Recalled := by
    apply k.preserves (fun q ↦ p.Ahead (fun _ ↦ True) q ∧ q.Recalled) ?_ ⟨.refl hp, hp⟩
    rintro q r ⟨hahead, hq⟩ hlearns
    cases hlearns with
    | recorded he =>
        have hstep := hq.ahead_modify he (.recordOnce_right (hq _ _ he))
        exact ⟨hahead.trans hstep fun _ _ _ _ ↦ trivial, hq.modify _ (hq _ _ he).recordOnce⟩
    | analyzed he =>
        have hstep := hq.ahead_modify he (.analyzeOnce_right (hq _ _ he))
        exact ⟨hahead.trans hstep fun _ _ _ _ ↦ trivial, hq.modify _ ((hq _ _ he).analyzeOnce _)⟩
  exact hinv.1
/-! ### Declarations on both sides -/

namespace Action

def IsQuestion (a : Action) : Prop :=
  ∃ k, a = .ask k

/-- The entry points after a declaration. -/
def enter : Action → Table EntryPoint → Table EntryPoint
  | entry name stage body, t => t.add name (.new stage body)
  | _, t => t

/-- Entry points only matter to declarations by their names. -/
theorem Accepts.mirror {a : Action} {d : Declarations} {t t' : Table EntryPoint} {q : Program}
    (h : Accepts ⟨d, t⟩ a q) (ha : ¬ a.IsQuestion)
    (hnames : ∀ name, t'.contains name = t.contains name) :
    Accepts ⟨d, t'⟩ a ⟨q.toDeclarations, a.enter t'⟩ := by
  cases h with
  | uniform hname => exact .uniform hname
  | uniformStruct hname hstructs => exact .uniformStruct hname hstructs
  | vertexAttribute hname => exact .vertexAttribute hname
  | varying hname => exact .varying hname
  | sampler hname => exact .sampler hname
  | output hname => exact .output hname
  | constant hroom => exact .constant hroom
  | helper hname hbody => exact .helper hname hbody
  | entry hname =>
      refine .entry ?_
      rw [hnames]
      exact hname
  | ask k => exact absurd ⟨k, rfl⟩ ha

theorem enter_of_refused {a : Action} {d : Declarations} {t : Table EntryPoint}
    (h : ∀ q, ¬ Accepts ⟨d, t⟩ a q) : a.enter t = t := by
  cases a with
  | entry name stage body =>
      apply Table.add_of_contains
      by_contra hname
      exact h _ (.entry hname)
  | _ => rfl

theorem perform_alike {a : Action} (ha : ¬ a.IsQuestion) (d : Declarations)
    {t t' : Table EntryPoint} (hnames : ∀ name, t'.contains name = t.contains name) :
    ∃ d', a.perform ⟨d, t⟩ = ⟨d', a.enter t⟩ ∧ a.perform ⟨d, t'⟩ = ⟨d', a.enter t'⟩ := by
  have hperform : ∀ {t : Table EntryPoint} {q : Program}, Accepts ⟨d, t⟩ a q →
      a.perform ⟨d, t⟩ = q := fun h ↦ perform_of_ok (outcome_eq_ok_iff.mpr h)
  have hrefused : ∀ {t : Table EntryPoint}, (∀ q, ¬ Accepts ⟨d, t⟩ a q) →
      a.perform ⟨d, t⟩ = ⟨d, a.enter t⟩ := by
    intro t h
    rw [enter_of_refused h]
    cases hout : a.outcome ⟨d, t⟩ with
    | ok q => exact absurd (outcome_eq_ok_iff.mp hout) (h q)
    | error e => exact perform_of_error hout
  by_cases haccepts : ∃ q, Accepts ⟨d, t⟩ a q
  · obtain ⟨q, hq⟩ := haccepts
    exact ⟨q.toDeclarations, hperform (hq.mirror ha fun _ ↦ rfl), hperform (hq.mirror ha hnames)⟩
  · have haccepts' : ∀ q, ¬ Accepts ⟨d, t'⟩ a q := fun q hq ↦
      haccepts ⟨_, hq.mirror ha fun name ↦ (hnames name).symm⟩
    exact ⟨d, hrefused (not_exists.mp haccepts), hrefused haccepts'⟩

end Action

/-- Declarations on both sides change nothing as long as only successes are remembered in
addition. -/
theorem Program.Ahead.perform {p q : Program} (h : p.Ahead (fun outcome ↦ ∃ u, outcome = .ok u) q)
    {a : Action} (ha : ¬ a.IsQuestion) :
    (a.perform p).Ahead (fun outcome ↦ ∃ u, outcome = .ok u) (a.perform q) := by
  have hgrows := (p.confirms_perform a).declarations.grows
  obtain ⟨d, t⟩ := p
  obtain ⟨d', t'⟩ := q
  cases h.declarations
  have hnames : ∀ name, t'.contains name = t.contains name := by
    intro name
    rw [Table.contains_eq_isSome, Table.contains_eq_isSome]
    rcases h.cases name with ⟨hp, hq⟩ | ⟨e, e', hp, hq, -⟩
    · rw [hp, hq]
    · rw [hp, hq]
      rfl
  obtain ⟨d', hp, hq⟩ := Action.perform_alike ha d hnames
  rw [hp] at hgrows
  have hold : ∀ name, Option.Rel (EntryPoint.Ahead (fun outcome ↦ ∃ u, outcome = .ok u) d')
      (t.get? name) (t'.get? name) := by
    intro name
    rcases h.cases name with ⟨hp, hq⟩ | ⟨e, e', hp, hq, he⟩
    · rw [hp, hq]
      exact .none
    · rw [hp, hq]
      exact .some (he.of_grows hgrows)
  rw [hp, hq]
  refine ⟨rfl, fun name ↦ ?_⟩
  cases a with
  | entry other stage body =>
      -- The new entry point is the same on both sides and remembers nothing.
      simp only [Action.enter, Table.get?_add, hnames]
      split
      · exact .some (.refl fun _ houtcome ↦ by cases houtcome)
      · exact hold name
  | _ => exact hold name

end Shading
