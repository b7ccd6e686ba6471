import Shading.Proofs.Program.Answers

/-!
# Queries side by side

A query reads the declarations, the stages of entry points and the outcomes of recordings and
analyses, and it changes nothing but what is remembered of these.  So a relation between two
programs outlasts every query if it does so for recordings and analyses, and the query has the same
outcome on both sides.  With the same program on both sides this says what a query preserves.
-/

namespace Shading

namespace Query

variable {α β : Type} {Rel : Program → Program → Prop}

/-- On related programs a query has one outcome and one list of warnings, and it leaves related
programs behind. -/
def Lockstep (Rel : Program → Program → Prop) (q : Query α) : Prop :=
  ∀ w p p', Rel p p' → (exec q w p').1 = (exec q w p).1 ∧ Rel (exec q w p).2 (exec q w p').2

theorem lockstep_ofExcept (x : Except Error α) : Lockstep Rel (ofExcept x) := by
  intro w p p' h
  rw [exec_ofExcept, exec_ofExcept]
  exact ⟨rfl, h⟩

theorem lockstep_pure (a : α) : Lockstep Rel (pure a) :=
  lockstep_ofExcept (.ok a)

theorem lockstep_throw (e : Error) : Lockstep Rel (throw e : Query α) :=
  lockstep_ofExcept (.error e)

theorem Lockstep.bind {q : Query α} {k : α → Query β} (hq : Lockstep Rel q)
    (hk : ∀ a, Lockstep Rel (k a)) : Lockstep Rel (q >>= k) := by
  intro w p p' h
  obtain ⟨hsame, hrel⟩ := hq w p p' h
  rw [exec_bind, exec_bind]
  rcases hrun : exec q w p with ⟨⟨outcome, w₁⟩, p₁⟩
  rcases hrun' : exec q w p' with ⟨⟨outcome', w₁'⟩, p₁'⟩
  rw [hrun, hrun'] at hsame hrel
  cases hsame
  cases outcome with
  | error e => exact ⟨rfl, hrel⟩
  | ok a => exact hk a w₁ p₁ p₁' hrel

theorem lockstep_warnings (names : List String) :
    Lockstep Rel (names.forM fun n ↦ warn ⟨n⟩) := by
  induction names with
  | nil => exact lockstep_pure ()
  | cons n names ih => exact Lockstep.bind (fun _ _ _ h ↦ ⟨rfl, h⟩) fun _ ↦ ih

/-- What a relation has to give for queries to go on side by side. -/
structure Compatible (Rel : Program → Program → Prop) : Prop where
  declarations : ∀ {p p'}, Rel p p' → p'.toDeclarations = p.toDeclarations
  stage : ∀ {p p'}, Rel p p' → ∀ name, p'.stageOf name = p.stageOf name
  block : ∀ name, Lockstep Rel (block name)
  usage : ∀ name, Lockstep Rel (usage name)

namespace Compatible

variable (h : Compatible Rel)
include h

/-- A query may go on with the declarations. -/
theorem program_bind {k : Declarations → Query β} (hk : ∀ d, Lockstep Rel (k d)) :
    Lockstep Rel (program >>= fun p ↦ k p.toDeclarations) := by
  intro w p p' hrel
  rw [exec_bind, exec_bind, exec_program, exec_program]
  dsimp only
  rw [h.declarations hrel]
  exact hk _ w p p' hrel

/-- A query may go on with the stage of an entry point. -/
theorem entry_bind {name : String} {k : EntryPoint → Query β} (hk : ∀ e, Lockstep Rel (k e))
    (hstage : ∀ e e', e'.stage = e.stage → k e' = k e) : Lockstep Rel (entry name >>= k) := by
  intro w p p' hrel
  have hsame := h.stage hrel name
  unfold Program.stageOf at hsame
  rw [exec_bind, exec_bind]
  cases he : p.entries.get? name with
  | none =>
      cases he' : p'.entries.get? name with
      | none =>
          rw [exec_entry_of_none he, exec_entry_of_none he']
          exact ⟨rfl, hrel⟩
      | some e' =>
          rw [he, he'] at hsame
          cases hsame
  | some e =>
      cases he' : p'.entries.get? name with
      | none =>
          rw [he, he'] at hsame
          cases hsame
      | some e' =>
          rw [he, he'] at hsame
          rw [exec_entry_of_some he, exec_entry_of_some he']
          dsimp only
          rw [hstage e e' (Except.ok.inj hsame)]
          exact hk e w p p' hrel

theorem peerUsage (name : String) (stage : Stage) (peer : Option String) :
    Lockstep Rel (peerUsage name stage peer) := by
  cases peer with
  | none => exact lockstep_pure none
  | some peer =>
      have husage : Lockstep Rel (Query.usage peer >>= fun u ↦ pure (some u)) :=
        (h.usage peer).bind fun u ↦ lockstep_pure (some u)
      unfold Query.peerUsage
      apply h.entry_bind
      · intro e
        dsimp only
        split
        · exact (lockstep_throw _).bind fun _ ↦ husage
        · exact husage
      · intro e e' hstage
        rw [hstage]

theorem allocate (vertex fragment : Option Usage) : Lockstep Rel (allocate vertex fragment) := by
  have hlayout : Lockstep Rel (do
      let p ← program
      ofExcept (Layout.allocate p.toDeclarations vertex fragment)) :=
    h.program_bind fun d ↦ lockstep_ofExcept (Layout.allocate d vertex fragment)
  unfold Query.allocate
  split
  · exact (lockstep_warnings _).bind fun _ ↦ hlayout
  · exact hlayout

theorem layout (name : String) (peer : Option String) : Lockstep Rel (layout name peer) := by
  refine (h.usage name).bind fun own ↦ ?_
  apply h.entry_bind
  · rintro ⟨stage, body, recorded, analyzed⟩
    refine (h.peerUsage name stage peer).bind fun other ↦ ?_
    cases stage with
    | vertex => exact h.allocate (some own) other
    | fragment => exact h.allocate other (some own)
  · intro e e' hstage
    dsimp only
    rw [hstage]

theorem emission (name : String) (peer : Option String) :
    Lockstep Rel (emission name peer) := by
  refine (h.usage name).bind fun own ↦ (h.layout name peer).bind fun layout ↦ ?_
  apply h.entry_bind
  · intro e
    refine h.program_bind (k := fun d ↦ do
      return Emission.mk d name e.stage (← Query.block name) own layout) fun d ↦ ?_
    exact (h.block name).bind fun body ↦ lockstep_pure _
  · intro e e' hstage
    dsimp only
    rw [hstage]

theorem question (k : Question) : Lockstep Rel k.query := by
  cases k with
  | block name => exact h.block name
  | usage name => exact h.usage name
  | layout name peer => exact h.layout name peer
  | glsl name options => exact (h.emission name none).bind fun _ ↦ lockstep_ofExcept _
  | wgsl name options => exact (h.emission name options.peer).bind fun _ ↦ lockstep_ofExcept _

end Compatible

end Query

/-! ### What questions preserve -/

namespace Program

/-- The program after an entry point was recorded or analyzed, if it was not before. -/
inductive Learns (p : Program) : Program → Prop
  | recorded {name : String} {e : EntryPoint} (he : p.entries.get? name = some e) :
      Learns p { p with entries := p.entries.modify name fun _ ↦ e.recordOnce.2 }
  | analyzed {name : String} {e : EntryPoint} (he : p.entries.get? name = some e) :
      Learns p { p with
        entries := p.entries.modify name fun _ ↦ (e.analyzeOnce p.toDeclarations).2 }

theorem compatible_of_learns {Inv : Program → Prop}
    (h : ∀ p q, Inv p → Learns p q → Inv q) :
    Query.Compatible fun p p' ↦ p' = p ∧ Inv p where
  declarations := fun ⟨hsame, _⟩ ↦ congrArg Program.toDeclarations hsame
  stage := fun ⟨hsame, _⟩ name ↦ congrArg (stageOf · name) hsame
  block name := by
    rintro w p p' ⟨rfl, hp⟩
    refine ⟨rfl, rfl, ?_⟩
    cases he : p'.entries.get? name with
    | none =>
        rw [Query.block, Query.exec_bind, Query.exec_entry_of_none he]
        exact hp
    | some e =>
        rw [Query.exec_block_of_some he]
        exact h _ _ hp (.recorded he)
  usage name := by
    rintro w p p' ⟨rfl, hp⟩
    refine ⟨rfl, rfl, ?_⟩
    cases he : p'.entries.get? name with
    | none =>
        rw [Query.usage, Query.exec_bind, Query.exec_entry_of_none he]
        exact hp
    | some e =>
        rw [Query.exec_usage_of_some he]
        exact h _ _ hp (.analyzed he)

end Program

/-- What recordings and analyses preserve, every question preserves. -/
theorem Question.preserves (k : Question) (Inv : Program → Prop)
    (h : ∀ p q, Inv p → p.Learns q → Inv q) {p : Program} (hp : Inv p) :
    Inv (k.query.ask p).2.2 :=
  ((Program.compatible_of_learns h).question k [] p p ⟨rfl, hp⟩).2.2

end Shading
