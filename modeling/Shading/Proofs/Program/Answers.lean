import Shading.Program.Query
import Shading.Proofs.Collection
import Shading.Proofs.Outcome

/-!
# Answers of queries

A query remembers outcomes in the program, which changes no answer: neither its own, nor that of any
later query.  So the answer of a query is a function of the program alone, and the program after it
agrees with the program before it.
-/

namespace Shading

/-! ### Agreement -/

/-- The same outcomes, whether they are remembered or not. -/
structure EntryPoint.Agrees (d : Declarations) (e e' : EntryPoint) : Prop where
  stage : e'.stage = e.stage
  recorded : e'.recordOnce.1 = e.recordOnce.1
  analyzed : (e'.analyzeOnce d).1 = (e.analyzeOnce d).1

namespace EntryPoint

theorem agrees_recordOnce (d : Declarations) (e : EntryPoint) : Agrees d e e.recordOnce.2 := by
  obtain ⟨stage, body, recorded, analyzed⟩ := e
  cases recorded <;> cases analyzed <;> exact ⟨rfl, rfl, rfl⟩

theorem agrees_analyzeOnce (d : Declarations) (e : EntryPoint) :
    Agrees d e (e.analyzeOnce d).2 := by
  obtain ⟨stage, body, recorded, analyzed⟩ := e
  cases recorded <;> cases analyzed <;> exact ⟨rfl, rfl, rfl⟩

end EntryPoint

namespace Program

/-! ### Answers as functions of the program -/

def stageOf (p : Program) (name : String) : Except Error Stage :=
  match p.entries.get? name with
  | some e => .ok e.stage
  | none => .error (.unresolvedEntry name)

def blockOf (p : Program) (name : String) : Except Error Block :=
  match p.entries.get? name with
  | some e => e.recordOnce.1
  | none => .error (.unresolvedEntry name)

def usageOf (p : Program) (name : String) : Except Error Usage :=
  match p.entries.get? name with
  | some e => (e.analyzeOnce p.toDeclarations).1
  | none => .error (.unresolvedEntry name)

/-- The same declarations and the same answers. -/
structure Agrees (p p' : Program) : Prop where
  declarations : p'.toDeclarations = p.toDeclarations
  stage : ∀ name, p'.stageOf name = p.stageOf name
  block : ∀ name, p'.blockOf name = p.blockOf name
  usage : ∀ name, p'.usageOf name = p.usageOf name

theorem Agrees.refl (p : Program) : p.Agrees p :=
  ⟨rfl, fun _ ↦ rfl, fun _ ↦ rfl, fun _ ↦ rfl⟩

theorem Agrees.trans {p p' p'' : Program} (h : p.Agrees p') (h' : p'.Agrees p'') :
    p.Agrees p'' where
  declarations := h'.declarations.trans h.declarations
  stage name := (h'.stage name).trans (h.stage name)
  block name := (h'.block name).trans (h.block name)
  usage name := (h'.usage name).trans (h.usage name)

theorem find_modify {α : Type} {p : Program} {name : String} {e e' : EntryPoint}
    (he : p.entries.get? name = some e) {answer : EntryPoint → Except Error α}
    (h : answer e' = answer e) (other : String) :
    (match (p.entries.modify name fun _ ↦ e').get? other with
      | some a => answer a
      | none => .error (.unresolvedEntry other)) =
    match p.entries.get? other with
      | some a => answer a
      | none => .error (.unresolvedEntry other) := by
  rw [Table.get?_modify]
  by_cases hother : other = name
  · subst hother
    simp [he, h]
  · cases p.entries.get? other <;> simp [hother]

/-- Nothing changes when an entry point is replaced by one with the same outcomes. -/
theorem agrees_modify {p : Program} {name : String} {e e' : EntryPoint}
    (he : p.entries.get? name = some e) (h : e.Agrees p.toDeclarations e') :
    p.Agrees { p with entries := p.entries.modify name fun _ ↦ e' } where
  declarations := rfl
  stage := find_modify he (congrArg _ h.stage)
  block := find_modify he h.recorded
  usage := find_modify he h.analyzed

end Program

namespace Query

variable {α β : Type}

/-- The outcome, the warnings and the program after a query. -/
def exec (q : Query α) (w : List Warning) (p : Program) :
    (Except Error α × List Warning) × Program :=
  (q.run.run w).run p

theorem exec_bind (q : Query α) (k : α → Query β) (w : List Warning) (p : Program) :
    exec (q >>= k) w p =
      match exec q w p with
      | ((.ok a, w'), p') => exec (k a) w' p'
      | ((.error e, w'), p') => ((.error e, w'), p') := by
  unfold exec
  rw [ExceptT.run_bind, StateT.run_bind]
  rcases hq : (q.run.run w).run p with ⟨⟨outcome, w'⟩, p'⟩
  cases outcome with
  | error e =>
      simp only [StateT.run_bind, hq]
      rfl
  | ok a =>
      simp only [StateT.run_bind, hq]
      rfl

theorem exec_pure (a : α) (w : List Warning) (p : Program) :
    exec (pure a) w p = ((.ok a, w), p) :=
  rfl

theorem exec_throw (e : Error) (w : List Warning) (p : Program) :
    exec (throw e : Query α) w p = ((.error e, w), p) :=
  rfl

theorem exec_ofExcept (x : Except Error α) (w : List Warning) (p : Program) :
    exec (ofExcept x) w p = ((x, w), p) := by
  cases x <;> rfl

theorem exec_program (w : List Warning) (p : Program) : exec program w p = ((.ok p, w), p) :=
  rfl

theorem exec_entry_of_some {name : String} {p : Program} {e : EntryPoint}
    (he : p.entries.get? name = some e) (w : List Warning) :
    exec (entry name) w p = ((.ok e, w), p) := by
  rw [entry, exec_bind, exec_program]
  simp only [he]
  exact exec_pure e w p

theorem exec_entry_of_none {name : String} {p : Program} (he : p.entries.get? name = none)
    (w : List Warning) : exec (entry name) w p = ((.error (.unresolvedEntry name), w), p) := by
  rw [entry, exec_bind, exec_program]
  simp only [he]
  exact exec_throw _ w p

theorem exec_remember (name : String) (e : EntryPoint) (w : List Warning) (p : Program) :
    exec (remember name e) w p =
      ((.ok (), w), { p with entries := p.entries.modify name fun _ ↦ e }) :=
  rfl

/-! ### Answers -/

/-- The outcome of a query depends on the answers of the program only, and the query keeps them. -/
structure Answers (q : Query α) (f : Program → Except Error α) : Prop where
  outcome : ∀ w p, (exec q w p).1.1 = f p
  agrees : ∀ w p, Program.Agrees p (exec q w p).2
  stable : ∀ {p p'}, Program.Agrees p p' → f p' = f p

theorem Answers.ask_eq {q : Query α} {f : Program → Except Error α} (h : Answers q f)
    (p : Program) : (ask q p).1 = f p :=
  h.outcome [] p

theorem Answers.ask_agrees {q : Query α} {f : Program → Except Error α} (h : Answers q f)
    (p : Program) : p.Agrees (ask q p).2.2 :=
  h.agrees [] p

theorem answers_ofExcept (x : Except Error α) : Answers (ofExcept x) fun _ ↦ x where
  outcome w p := by rw [exec_ofExcept]
  agrees w p := by
    rw [exec_ofExcept]
    exact .refl p
  stable _ := rfl

theorem answers_pure (a : α) : Answers (pure a) fun _ ↦ .ok a :=
  answers_ofExcept (.ok a)

theorem answers_throw (e : Error) : Answers (throw e : Query α) fun _ ↦ .error e :=
  answers_ofExcept (.error e)

theorem Answers.bind {q : Query α} {f : Program → Except Error α} {k : α → Query β}
    {g : α → Program → Except Error β} (hq : Answers q f) (hk : ∀ a, Answers (k a) (g a)) :
    Answers (q >>= k) fun p ↦ f p >>= fun a ↦ g a p where
  outcome w p := by
    rw [exec_bind, ← hq.outcome w p]
    have hagrees := hq.agrees w p
    rcases hrun : exec q w p with ⟨⟨outcome, w'⟩, p'⟩
    rw [hrun] at hagrees
    cases outcome with
    | error e => rfl
    | ok a => exact ((hk a).outcome w' p').trans ((hk a).stable hagrees)
  agrees w p := by
    rw [exec_bind]
    have hagrees := hq.agrees w p
    rcases hrun : exec q w p with ⟨⟨outcome, w'⟩, p'⟩
    rw [hrun] at hagrees
    cases outcome with
    | error e => exact hagrees
    | ok a => exact hagrees.trans ((hk a).agrees w' p')
  stable {p p'} h := by
    rw [hq.stable h]
    cases f p with
    | error e => rfl
    | ok a => exact (hk a).stable h

/-- A query may go on with the stage of an entry point. -/
theorem answers_entry_bind {name : String} {k : EntryPoint → Query β}
    {g : Stage → Program → Except Error β} (hk : ∀ e, Answers (k e) (g e.stage)) :
    Answers (entry name >>= k) fun p ↦ p.stageOf name >>= fun stage ↦ g stage p where
  outcome w p := by
    rw [exec_bind, Program.stageOf]
    cases he : p.entries.get? name with
    | none =>
        rw [exec_entry_of_none he]
        rfl
    | some e =>
        rw [exec_entry_of_some he]
        exact (hk e).outcome w p
  agrees w p := by
    rw [exec_bind]
    cases he : p.entries.get? name with
    | none =>
        rw [exec_entry_of_none he]
        exact .refl p
    | some e =>
        rw [exec_entry_of_some he]
        exact (hk e).agrees w p
  stable {p p'} h := by
    have hstage := h.stage name
    unfold Program.stageOf at hstage ⊢
    cases he : p.entries.get? name with
    | none =>
        rw [he] at hstage
        rw [hstage]
        rfl
    | some e =>
        rw [he] at hstage
        rw [hstage]
        exact (hk e).stable h

/-- A query may go on with the declarations. -/
theorem answers_program_bind {k : Program → Query β} {g : Declarations → Program → Except Error β}
    (hk : ∀ p, Answers (k p) (g p.toDeclarations)) :
    Answers (program >>= k) fun p ↦ g p.toDeclarations p where
  outcome w p := by
    rw [exec_bind, exec_program]
    exact (hk p).outcome w p
  agrees w p := by
    rw [exec_bind, exec_program]
    exact (hk p).agrees w p
  stable {p p'} h := by
    rw [h.declarations]
    exact (hk p).stable h

theorem answers_warn (warning : Warning) : Answers (warn warning) fun _ ↦ .ok () where
  outcome _ _ := rfl
  agrees _ p := .refl p
  stable _ := rfl

theorem answers_forM_warn (names : List String) :
    Answers (names.forM fun n ↦ warn ⟨n⟩) fun _ ↦ .ok () := by
  induction names with
  | nil => exact answers_pure ()
  | cons n names ih => exact (answers_warn ⟨n⟩).bind fun _ ↦ ih

theorem exec_block_of_some {name : String} {p : Program} {e : EntryPoint}
    (he : p.entries.get? name = some e) (w : List Warning) : exec (block name) w p =
      ((e.recordOnce.1, w),
        { p with entries := p.entries.modify name fun _ ↦ e.recordOnce.2 }) := by
  simp only [block, exec_bind, exec_entry_of_some he, exec_remember, exec_ofExcept]

theorem exec_usage_of_some {name : String} {p : Program} {e : EntryPoint}
    (he : p.entries.get? name = some e) (w : List Warning) : exec (usage name) w p =
      (((e.analyzeOnce p.toDeclarations).1, w),
        { p with
          entries := p.entries.modify name fun _ ↦ (e.analyzeOnce p.toDeclarations).2 }) := by
  simp only [usage, exec_bind, exec_entry_of_some he, exec_program, exec_remember, exec_ofExcept]

theorem answers_block (name : String) : Answers (block name) fun p ↦ p.blockOf name where
  outcome w p := by
    rw [Program.blockOf]
    cases he : p.entries.get? name with
    | none => rw [block, exec_bind, exec_entry_of_none he]
    | some e => rw [exec_block_of_some he]
  agrees w p := by
    cases he : p.entries.get? name with
    | none =>
        rw [block, exec_bind, exec_entry_of_none he]
        exact .refl p
    | some e =>
        rw [exec_block_of_some he]
        exact Program.agrees_modify he (EntryPoint.agrees_recordOnce _ e)
  stable h := h.block name

theorem answers_usage (name : String) : Answers (usage name) fun p ↦ p.usageOf name where
  outcome w p := by
    rw [Program.usageOf]
    cases he : p.entries.get? name with
    | none => rw [usage, exec_bind, exec_entry_of_none he]
    | some e => rw [exec_usage_of_some he]
  agrees w p := by
    cases he : p.entries.get? name with
    | none =>
        rw [usage, exec_bind, exec_entry_of_none he]
        exact .refl p
    | some e =>
        rw [exec_usage_of_some he]
        exact Program.agrees_modify he (EntryPoint.agrees_analyzeOnce _ e)
  stable h := h.usage name

end Query

/-! ### Layouts and modules -/

namespace Program

def peerUsageOf (p : Program) (name : String) (stage : Stage) :
    Option String → Except Error (Option Usage)
  | none => .ok none
  | some peer => do
    let peerStage ← p.stageOf peer
    if peerStage = stage then .error (.sameStage name peer stage)
    else return some (← p.usageOf peer)

def layoutOf (p : Program) (name : String) (peer : Option String) : Except Error Layout := do
  let own ← p.usageOf name
  let stage ← p.stageOf name
  let other ← p.peerUsageOf name stage peer
  match stage with
  | .vertex => Layout.allocate p.toDeclarations (some own) other
  | .fragment => Layout.allocate p.toDeclarations other (some own)

def emissionOf (p : Program) (name : String) (peer : Option String) : Except Error Emission := do
  let own ← p.usageOf name
  let layout ← p.layoutOf name peer
  let stage ← p.stageOf name
  let body ← p.blockOf name
  return ⟨p.toDeclarations, name, stage, body, own, layout⟩

end Program

namespace Query

theorem answers_peerUsage (name : String) (stage : Stage) (peer : Option String) :
    Answers (peerUsage name stage peer) fun p ↦ p.peerUsageOf name stage peer := by
  cases peer with
  | none => exact answers_pure none
  | some peer =>
      refine answers_entry_bind (g := fun peerStage p ↦
        if peerStage = stage then .error (.sameStage name peer stage)
        else do return some (← p.usageOf peer)) ?_
      intro e
      by_cases hstage : e.stage = stage
      · simp only [if_pos hstage]
        exact answers_throw _
      · simp only [if_neg hstage]
        exact (answers_usage peer).bind fun u ↦ answers_pure (some u)

theorem answers_allocate (vertex fragment : Option Usage) :
    Answers (allocate vertex fragment) fun p ↦
      Layout.allocate p.toDeclarations vertex fragment := by
  have hlayout : Answers (do
      let p ← program
      ofExcept (Layout.allocate p.toDeclarations vertex fragment)) fun p ↦
        Layout.allocate p.toDeclarations vertex fragment :=
    answers_program_bind (g := fun d _ ↦ Layout.allocate d vertex fragment) fun p ↦
      answers_ofExcept _
  unfold allocate
  split
  · next v f => exact (answers_forM_warn _).bind fun _ ↦ hlayout
  · exact hlayout

theorem answers_layout (name : String) (peer : Option String) :
    Answers (layout name peer) fun p ↦ p.layoutOf name peer := by
  refine (answers_usage name).bind fun own ↦ ?_
  refine answers_entry_bind (g := fun stage p ↦ do
    let other ← p.peerUsageOf name stage peer
    match stage with
    | .vertex => Layout.allocate p.toDeclarations (some own) other
    | .fragment => Layout.allocate p.toDeclarations other (some own)) ?_
  intro e
  refine (answers_peerUsage name e.stage peer).bind fun other ↦ ?_
  cases e.stage with
  | vertex => exact answers_allocate (some own) other
  | fragment => exact answers_allocate other (some own)

theorem answers_emission (name : String) (peer : Option String) :
    Answers (emission name peer) fun p ↦ p.emissionOf name peer := by
  refine (answers_usage name).bind fun own ↦ (answers_layout name peer).bind fun layout ↦ ?_
  refine answers_entry_bind (g := fun stage p ↦ do
    let body ← p.blockOf name
    return Emission.mk p.toDeclarations name stage body own layout) ?_
  intro e
  refine answers_program_bind (g := fun d p ↦ do
    let body ← p.blockOf name
    return Emission.mk d name e.stage body own layout) ?_
  intro p
  exact (answers_block name).bind fun body ↦ answers_pure _

theorem answers_glsl (name : String) (options : Glsl.Options) :
    Answers (glsl name options) fun p ↦
      p.emissionOf name none >>= fun e ↦ Glsl.emit e options :=
  (answers_emission name none).bind fun _ ↦ answers_ofExcept _

theorem answers_wgsl (name : String) (options : Wgsl.Options) :
    Answers (wgsl name options) fun p ↦
      p.emissionOf name options.peer >>= fun e ↦ Wgsl.emit e options :=
  (answers_emission name options.peer).bind fun _ ↦ answers_ofExcept _

/-- A question that is asked for the sake of a part of its answer. -/
theorem Answers.ask_map {q : Query α} {f : Program → Except Error α} (h : Answers q f) (g : α → β)
    (p : Program) : (ask (do return g (← q)) p).1 = (ask q p).1.map g := by
  rw [(h.bind fun a ↦ answers_pure (g a)).ask_eq, h.ask_eq]
  cases f p <;> rfl

theorem ask_glslText (name : String) (options : Glsl.Options) (p : Program) :
    ((glslText name options).ask p).1 = ((glsl name options).ask p).1.map Glsl.Shader.text :=
  (answers_glsl name options).ask_map Glsl.Shader.text p

theorem ask_wgslText (name : String) (options : Wgsl.Options) (p : Program) :
    ((wgslText name options).ask p).1 = ((wgsl name options).ask p).1.map Wgsl.Module.text :=
  (answers_wgsl name options).ask_map Wgsl.Module.text p

end Query

/-! ### Questions -/

/-- All that can be asked about an entry point. -/
inductive Question where
  | block (name : String)
  | usage (name : String)
  | layout (name : String) (peer : Option String)
  | glsl (name : String) (options : Glsl.Options)
  | wgsl (name : String) (options : Wgsl.Options)

namespace Question

def Answer : Question → Type
  | block _ => Block
  | usage _ => Usage
  | layout .. => Layout
  | glsl .. => Glsl.Shader
  | wgsl .. => Wgsl.Module

def query : (k : Question) → Query k.Answer
  | block name => Query.block name
  | usage name => Query.usage name
  | layout name peer => Query.layout name peer
  | glsl name options => Query.glsl name options
  | wgsl name options => Query.wgsl name options

def outcome : (k : Question) → Program → Except Error k.Answer
  | block name => fun p ↦ p.blockOf name
  | usage name => fun p ↦ p.usageOf name
  | layout name peer => fun p ↦ p.layoutOf name peer
  | glsl name options => fun p ↦ p.emissionOf name none >>= fun e ↦ Glsl.emit e options
  | wgsl name options => fun p ↦ p.emissionOf name options.peer >>= fun e ↦ Wgsl.emit e options

theorem answers (k : Question) : Query.Answers k.query k.outcome := by
  cases k with
  | block name => exact Query.answers_block name
  | usage name => exact Query.answers_usage name
  | layout name peer => exact Query.answers_layout name peer
  | glsl name options => exact Query.answers_glsl name options
  | wgsl name options => exact Query.answers_wgsl name options

end Question

end Shading
