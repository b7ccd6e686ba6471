import Shading.Proofs.Wgsl.Exits

/-!
# The end of an entry function

Whether control may come to the closing brace of an entry function.  A function that returns a
struct never gets there, since one more return is written at its end where it is needed.  A function
that leaves with an expression gets no further return, so it ends as the recorded body does.
-/

namespace Shading

/-! ### Going on -/

mutual

/-- Whether control may go on behind a statement.  A loop may end at its condition, and a fragment
that is discarded still runs to its end. -/
def Statement.goesOn : Statement → Bool
  | .leave _ => false
  | .skip => false
  | .stop => false
  | .branch _ body rest => Block.goesOn body || rest.goesOn
  | _ => true

def Block.goesOn : List Statement → Bool
  | [] => true
  | s :: ss => s.goesOn && Block.goesOn ss

def Otherwise.goesOn : Otherwise → Bool
  | .nothing => true
  | .always body => Block.goesOn body
  | .test _ body rest => Block.goesOn body || rest.goesOn

end

mutual

/-- Whether a statement is a return, or a conditional with a final alternative of which every branch
ends with such a statement. -/
def Statement.returns : Statement → Bool
  | .leave _ => true
  | .branch _ body rest => Block.endsInReturn body && rest.returns
  | _ => false

def Block.endsInReturn : List Statement → Bool
  | [] => false
  | s :: ss => if ss.isEmpty then s.returns else Block.endsInReturn ss

def Otherwise.returns : Otherwise → Bool
  | .nothing => false
  | .always body => Block.endsInReturn body
  | .test _ body rest => Block.endsInReturn body && rest.returns

end

namespace Code

mutual

def Statement.goesOn : Statement → Bool
  | .leave _ => false
  | .skip => false
  | .stop => false
  | .branch _ body rest => goesOnAll body || rest.goesOn
  | _ => true

def goesOnAll : List Statement → Bool
  | [] => true
  | s :: ss => s.goesOn && goesOnAll ss

def Otherwise.goesOn : Otherwise → Bool
  | .nothing => true
  | .always body => goesOnAll body
  | .test _ body rest => goesOnAll body || rest.goesOn

end

mutual

def Statement.returns : Statement → Bool
  | .leave _ => true
  | .branch _ body rest => endsInReturn body && rest.returns
  | _ => false

def endsInReturn : List Statement → Bool
  | [] => false
  | s :: ss => if ss.isEmpty then s.returns else endsInReturn ss

def Otherwise.returns : Otherwise → Bool
  | .nothing => false
  | .always body => endsInReturn body
  | .test _ body rest => endsInReturn body && rest.returns

end

theorem goesOnAll_append (ss ss' : List Statement) :
    goesOnAll (ss ++ ss') = (goesOnAll ss && goesOnAll ss') := by
  induction ss with
  | nil => rfl
  | cons s ss ih => rw [List.cons_append, goesOnAll, goesOnAll, ih, Bool.and_assoc]

theorem endsInReturn_append_of_ne_nil (ss : List Statement) {ss' : List Statement}
    (h : ss' ≠ []) : endsInReturn (ss ++ ss') = endsInReturn ss' := by
  induction ss with
  | nil => rfl
  | cons s ss ih =>
      have hmore : (ss ++ ss').isEmpty = false := by simp [h]
      rw [List.cons_append, endsInReturn, hmore, ← ih]
      rfl

theorem endsInReturn_of_getLast? {ss : List Statement} {value : Option Expr}
    (h : ss.getLast? = some (.leave value)) : endsInReturn ss = true := by
  obtain ⟨first, rfl⟩ := List.getLast?_eq_some_iff.mp h
  rw [endsInReturn_append_of_ne_nil first (List.cons_ne_nil _ _)]
  rfl

mutual

theorem Statement.goesOn_of_returns : ∀ {s : Statement}, s.returns = true → s.goesOn = false
  | .leave _, _ => rfl
  | .branch _ body rest, h => by
    rw [Statement.returns, Bool.and_eq_true] at h
    rw [Statement.goesOn, goesOnAll_of_endsInReturn h.1, Otherwise.goesOn_of_returns h.2]
    rfl

/-- Control does not go on behind a block that ends in a return. -/
theorem goesOnAll_of_endsInReturn : ∀ {ss : List Statement}, endsInReturn ss = true →
    goesOnAll ss = false
  | s :: ss, h => by
    rw [endsInReturn] at h
    rw [goesOnAll]
    split at h
    · rw [Statement.goesOn_of_returns h, Bool.false_and]
    · rw [goesOnAll_of_endsInReturn h, Bool.and_false]

theorem Otherwise.goesOn_of_returns : ∀ {rest : Otherwise}, rest.returns = true →
    rest.goesOn = false
  | .always _, h => goesOnAll_of_endsInReturn h
  | .test _ body rest, h => by
    rw [Otherwise.returns, Bool.and_eq_true] at h
    rw [Otherwise.goesOn, goesOnAll_of_endsInReturn h.1, Otherwise.goesOn_of_returns h.2]
    rfl

end

/-! ### Carrying a body over -/

namespace Target

variable (t : Target)

mutual

theorem ending_statement : ∀ (s : Shading.Statement) {kept : List Statement},
    t.keepingReturns.statement s = .ok kept →
      ∃ c, kept = [c] ∧ c.goesOn = s.goesOn ∧ c.returns = s.returns
  | .declare type h init, kept, hkept => by
    obtain ⟨ty, -, hkept⟩ := bind_eq_ok.mp hkept
    obtain ⟨v, -, hkept⟩ := bind_eq_ok.mp hkept
    cases hkept
    exact ⟨_, rfl, rfl, rfl⟩
  | .assign target op value, kept, hkept => by
    obtain ⟨a, -, hkept⟩ := bind_eq_ok.mp hkept
    obtain ⟨v, -, hkept⟩ := bind_eq_ok.mp hkept
    cases hkept
    exact ⟨_, rfl, rfl, rfl⟩
  | .leave value, kept, hkept => by
    obtain ⟨v, -, hkept⟩ := bind_eq_ok.mp hkept
    cases hkept
    exact ⟨_, rfl, rfl, rfl⟩
  | .skip, kept, hkept => by
    cases hkept
    exact ⟨_, rfl, rfl, rfl⟩
  | .stop, kept, hkept => by
    cases hkept
    exact ⟨_, rfl, rfl, rfl⟩
  | .discard, kept, hkept => by
    cases hkept
    exact ⟨_, rfl, rfl, rfl⟩
  | .branch condition body rest, kept, hkept => by
    obtain ⟨c, -, hkept⟩ := bind_eq_ok.mp hkept
    obtain ⟨b, hb, hkept⟩ := bind_eq_ok.mp hkept
    obtain ⟨r, hr, hkept⟩ := bind_eq_ok.mp hkept
    cases hkept
    obtain ⟨-, hbody, hbody'⟩ := ending_block body hb
    obtain ⟨hrest, hrest'⟩ := ending_otherwise rest hr
    refine ⟨_, rfl, ?_, ?_⟩
    · rw [Statement.goesOn, hbody, hrest, Shading.Statement.goesOn]
    · rw [Statement.returns, hbody', hrest', Shading.Statement.returns]
  | .forLoop type h init condition next body, kept, hkept => by
    obtain ⟨ty, -, hkept⟩ := bind_eq_ok.mp hkept
    obtain ⟨i, -, hkept⟩ := bind_eq_ok.mp hkept
    obtain ⟨c, -, hkept⟩ := bind_eq_ok.mp hkept
    obtain ⟨n, -, hkept⟩ := bind_eq_ok.mp hkept
    obtain ⟨b, -, hkept⟩ := bind_eq_ok.mp hkept
    cases hkept
    exact ⟨_, rfl, rfl, rfl⟩
  | .whileLoop condition body, kept, hkept => by
    obtain ⟨c, -, hkept⟩ := bind_eq_ok.mp hkept
    obtain ⟨b, -, hkept⟩ := bind_eq_ok.mp hkept
    cases hkept
    exact ⟨_, rfl, rfl, rfl⟩
  | .raw glsl wgsl, kept, hkept => by
    cases hkept
    exact ⟨_, rfl, rfl, rfl⟩

/-- Code with its returns kept ends as the recorded body does. -/
theorem ending_block : ∀ (ss : List Shading.Statement) {kept : List Statement},
    t.keepingReturns.block ss = .ok kept → kept.isEmpty = ss.isEmpty ∧
      goesOnAll kept = Block.goesOn ss ∧ endsInReturn kept = Block.endsInReturn ss
  | [], kept, hkept => by
    cases hkept
    exact ⟨rfl, rfl, rfl⟩
  | s :: ss, kept, hkept => by
    obtain ⟨first, hfirst, hkept⟩ := bind_eq_ok.mp hkept
    obtain ⟨more, hmore, hkept⟩ := bind_eq_ok.mp hkept
    cases hkept
    obtain ⟨c, rfl, hgoes, hreturns⟩ := ending_statement s hfirst
    obtain ⟨hempty, hgoesAll, hends⟩ := ending_block ss hmore
    refine ⟨rfl, ?_, ?_⟩
    · rw [List.singleton_append, goesOnAll, hgoes, hgoesAll, Block.goesOn]
    · rw [List.singleton_append, endsInReturn, hempty, hreturns, hends, Block.endsInReturn]

theorem ending_otherwise : ∀ (rest : Shading.Otherwise) {kept : Otherwise},
    t.keepingReturns.otherwise rest = .ok kept →
      kept.goesOn = rest.goesOn ∧ kept.returns = rest.returns
  | .nothing, kept, hkept => by
    cases hkept
    exact ⟨rfl, rfl⟩
  | .always body, kept, hkept => by
    obtain ⟨b, hb, hkept⟩ := bind_eq_ok.mp hkept
    cases hkept
    exact (ending_block body hb).2
  | .test condition body rest, kept, hkept => by
    obtain ⟨c, -, hkept⟩ := bind_eq_ok.mp hkept
    obtain ⟨b, hb, hkept⟩ := bind_eq_ok.mp hkept
    obtain ⟨r, hr, hkept⟩ := bind_eq_ok.mp hkept
    cases hkept
    obtain ⟨-, hbody, hbody'⟩ := ending_block body hb
    obtain ⟨hrest, hrest'⟩ := ending_otherwise rest hr
    constructor
    · rw [Otherwise.goesOn, hbody, hrest, Shading.Otherwise.goesOn]
    · rw [Otherwise.returns, hbody', hrest', Shading.Otherwise.returns]

end

end Target

end Code

/-! ### Entry functions -/

namespace Wgsl

open Code (goesOnAll endsInReturn)

variable {e : Emission} {o : Options} {m : Module}

def EntryFunction.returnsStruct (f : EntryFunction) : Bool :=
  f.result = .named vertexOutput || f.result = .named fragmentOut

theorem goesOnAll_locals (flow : Flow) : goesOnAll (locals e flow) = true := by
  cases flow with
  | vertex output remap => cases output <;> cases hsize : e.usesBuiltin .pointSize <;>
      simp [locals, hsize, goesOnAll, Code.Statement.goesOn]
  | fragment input output color => cases output <;> rfl

theorem endsInReturn_locals (flow : Flow) : endsInReturn (locals e flow) = false := by
  -- A block that ended in a return would not let control go on.
  cases hends : endsInReturn (locals e flow) with
  | false => rfl
  | true =>
      have hstuck := Code.goesOnAll_of_endsInReturn hends
      rw [goesOnAll_locals] at hstuck
      cases hstuck

/-- How an entry function ends: with a return if it returns a struct, and otherwise as its recorded
body does, in which a value is returned somewhere and no return is without one. -/
structure EndsAs (e : Emission) (f : EntryFunction) : Prop where
  last : endsInReturn f.body = (f.returnsStruct || Block.endsInReturn e.body)
  brace : goesOnAll f.body = (!f.returnsStruct && Block.goesOn e.body)
  bare : f.returnsStruct = false → e.usage.returnsValue = true ∧ e.usage.returnsVoid = false

theorem endsAs_of_struct {f : EntryFunction} {struct : String} (hstruct : f.returnsStruct = true)
    (hlast : f.body.getLast? = some (.leave (some (.word struct)))) : EndsAs e f := by
  have hends : endsInReturn f.body = true := Code.endsInReturn_of_getLast? hlast
  refine ⟨?_, ?_, ?_⟩
  · rw [hends, hstruct, Bool.true_or]
  · rw [Code.goesOnAll_of_endsInReturn hends, hstruct]
    rfl
  · intro hbare
    cases hstruct.symm.trans hbare

theorem endsAs_of_expr {f : EntryFunction} {flow : Flow} {kept : List Code.Statement}
    (hstruct : f.returnsStruct = false) (hbare : leavesBare e.usage = false)
    (hkept : (target (.entry flow)).keepingReturns.block e.body = .ok kept)
    (hbody : f.body = locals e flow ++ kept) : EndsAs e f := by
  obtain ⟨-, hgoes, hends⟩ := Code.Target.ending_block _ e.body hkept
  refine ⟨?_, ?_, fun _ ↦ ?_⟩
  · rw [hbody, hstruct, Bool.false_or, ← hends]
    by_cases hnone : kept = []
    · rw [hnone, List.append_nil, endsInReturn_locals]
      rfl
    · exact Code.endsInReturn_append_of_ne_nil _ hnone
  · rw [hbody, Code.goesOnAll_append, goesOnAll_locals, hgoes, hstruct]
    rfl
  · unfold leavesBare at hbare
    simp only [Bool.or_eq_false_iff, Bool.not_eq_false'] at hbare
    exact ⟨hbare.2, hbare.1⟩

theorem endsAs_of_emit (h : emit e o = .ok m)
    (hvoid : .leave none ∈ Block.within e.body → e.usage.returnsVoid = true) :
    EndsAs e m.entry := by
  obtain ⟨kept, hkept, hagree⟩ := exitsAgree_of_emit h hvoid
  obtain ⟨-, -, hresult, -⟩ := emit_entry h
  by_cases hvertex : m.entry.result = .named vertexOutput
  · apply endsAs_of_struct _ (hagree.vertexOutput hvertex).last
    simp [EntryFunction.returnsStruct, hvertex]
  by_cases hfragment : m.entry.result = .named fragmentOut
  · apply endsAs_of_struct _ (hagree.fragmentOut hfragment).last
    simp [EntryFunction.returnsStruct, hfragment]
  have hbare : leavesBare e.usage = false := by
    rcases entryFlow_cases e o with ⟨-, hflow⟩ | ⟨input, -, hflow⟩ | ⟨-, -, hbare, -⟩
    · exact (hvertex (by rw [hresult, hflow, result])).elim
    · exact (hfragment (by rw [hresult, hflow, result])).elim
    · exact hbare
  apply endsAs_of_expr _ hbare hkept (hagree.expr hvertex hfragment).body
  simp [EntryFunction.returnsStruct, hvertex, hfragment]

/-- Control comes to the closing brace of an entry function only if the function leaves with an
expression and control may go on behind the recorded body. -/
theorem closing_brace_of_reachable (p : Program) (hp : p.Reachable) (name : String) (o : Options)
    (m : Module) (h : ((Query.wgsl name o).ask p).1 = .ok m) :
    ∃ e, p.emissionOf name o.peer = .ok e ∧ EndsAs e m.entry := by
  rw [(Query.answers_wgsl name o).ask_eq] at h
  obtain ⟨e, he, hemit⟩ := bind_eq_ok.mp h
  obtain ⟨-, -, -, -, hof⟩ := hp.emission he
  exact ⟨e, he, endsAs_of_emit hemit (Usage.returnsVoid_iff hof).mpr⟩

/-- A vertex entry point that returns a value on both paths of a conditional at its end. -/
def choosing : List Action :=
  let vector := Ty.ofPrim (.vector .float .four)
  [.uniform "flip" .bool ⟨0, none⟩, .uniform "offset" vector ⟨0, none⟩,
    .uniform "origin" vector ⟨0, none⟩,
    .entry "vs" .vertex <|
      Recorder.when (.ofHandle .bool (.uniform "flip"))
        (Recorder.leave (.ofHandle vector (.uniform "offset")))
        (Recorder.otherwise (Recorder.leave (.ofHandle vector (.uniform "origin"))))]

def choosingText : String :=
  "@vertex\nfn vs() -> @builtin(position) vec4<f32> \x7b\n  if flip \x7b\n    return offset;\n" ++
    "  \x7d else \x7b\n    return origin;\n  \x7d\n\x7d\n"

theorem closing_brace_of_reachable_choosing :
    ∃ m e, ((Query.wgsl "vs" .default).ask (Action.run choosing)).1 = .ok m ∧
      m.entry.text = choosingText ∧ endsInReturn m.entry.body = true ∧
      (Action.run choosing).emissionOf "vs" none = .ok e ∧ EndsAs e m.entry := by
  have hrun : Except.toOption (do
      let m ← ((Query.wgsl "vs" .default).ask (Action.run choosing)).1
      return (m.entry.text, endsInReturn m.entry.body)) = some (choosingText, true) := by
    decide +kernel
  obtain ⟨m, hm, hrun⟩ := bind_eq_ok.mp (eq_ok_of_toOption hrun)
  obtain ⟨htext, hends⟩ := Prod.mk.inj (Except.ok.inj hrun)
  obtain ⟨e, he, hendsAs⟩ :=
    closing_brace_of_reachable _ (Action.reachable_run choosing) "vs" .default m hm
  exact ⟨m, e, hm, htext, hends, he, hendsAs⟩

def fallenText : String :=
  "@vertex\nfn vs() -> @builtin(position) vec4<f32> \x7b\n  if flip \x7b\n    return offset;\n" ++
    "  \x7d\n\x7d\n"

/-- A value that is returned on one path only leaves the other path without a return. -/
theorem closing_brace_reached_flipping :
    (Action.run flipping).Reachable ∧
      ∃ m, ((Query.wgsl "vs" .default).ask (Action.run flipping)).1 = .ok m ∧
        m.entry.text = fallenText ∧ endsInReturn m.entry.body = false ∧
        goesOnAll m.entry.body = true := by
  have hrun : Except.toOption (do
      let m ← ((Query.wgsl "vs" .default).ask (Action.run flipping)).1
      return (m.entry.text, endsInReturn m.entry.body, goesOnAll m.entry.body)) =
        some (fallenText, false, true) := by
    decide +kernel
  obtain ⟨m, hm, hrun⟩ := bind_eq_ok.mp (eq_ok_of_toOption hrun)
  obtain ⟨htext, hrun⟩ := Prod.mk.inj (Except.ok.inj hrun)
  obtain ⟨hends, hgoes⟩ := Prod.mk.inj hrun
  exact ⟨Action.reachable_run flipping, m, hm, htext, hends, hgoes⟩

end Wgsl

end Shading
