import Shading.Proofs.Code.Leaving
import Shading.Proofs.Program.Growth
import Shading.Proofs.Wgsl.Interface

/-!
# Exits of an entry function

An entry function leaves in the way that its result asks for: through the struct that it returns,
into which a returned value is put first, or with an expression.  The depth is mapped right before
it leaves, and nowhere else.
-/

namespace Shading.Wgsl

open Code (Target blocks HasReturn LeavesAfter withExitsAll)

variable {e : Emission} {o : Options} {m : Module}

/-! ### Exits through a struct -/

/-- Put a value, if there is one, into a field of a struct and return the struct. -/
def exitThrough (before : List Code.Statement) (field : Code.Expr) (struct : String)
    (value : Option Code.Expr) : List Code.Statement :=
  (value.toList.map fun v ↦ .assign field none v) ++ before ++ [.leave (some (.word struct))]

/-- The statements that the writer puts in front of a return. -/
def inserted (e : Emission) (o : Options) : List Code.Statement :=
  if o.remapDepth && e.stage = .vertex then [remapDepth] else []

theorem leavesAfter_exitThrough {before : List Code.Statement}
    (hbefore : ∀ value, .leave value ∉ before) (field : Code.Expr) (struct : String)
    (value : Option Code.Expr) :
    LeavesAfter before struct (exitThrough before field struct value) := by
  intro l v l' hsplit
  have hnone : .leave v ∉
      (value.toList.map fun v ↦ Code.Statement.assign field none v) ++ before := by
    simp [hbefore]
  rcases List.append_eq_append_iff.mp hsplit with ⟨k, rfl, hk⟩ | ⟨k, hk, hk'⟩
  · rcases List.cons_eq_append_iff.mp hk with ⟨rfl, heq⟩ | ⟨k', rfl, heq⟩
    · cases heq
      exact ⟨rfl, _, List.append_nil _⟩
    · simp at heq
  · rcases List.cons_eq_append_iff.mp hk' with ⟨rfl, heq⟩ | ⟨k', rfl, -⟩
    · cases heq
      exact ⟨rfl, _, ((List.append_nil l).symm.trans hk.symm)⟩
    · exact (hnone (hk ▸ List.mem_append_right l List.mem_cons_self)).elim

theorem blocksWithin_exitThrough {before : List Code.Statement}
    (hbefore : Code.blocksWithin before = []) (field : Code.Expr) (struct : String)
    (value : Option Code.Expr) :
    Code.blocksWithin (exitThrough before field struct value) = [] := by
  rw [exitThrough, Code.blocksWithin_append, Code.blocksWithin_append, hbefore]
  cases value <;> rfl

/-- An entry function that always returns a struct.  It consists of its variables, of the body with
its returns replaced, and of one more exit unless the body ends with a return. -/
structure ReturnsStruct (e : Emission) (flow : Flow) (kept before : List Code.Statement)
    (field : Code.Expr) (struct : String) (f : EntryFunction) : Prop where
  body : f.body = locals e flow ++ withExitsAll (exitThrough before field struct) kept ++
    if e.body.endsWithLeave then [] else exitThrough before field struct none
  returns : ∀ b ∈ blocks f.body, LeavesAfter before struct b
  last : f.body.getLast? = some (.leave (some (.word struct)))

/-- An entry function that always leaves with an expression. -/
structure ReturnsExpr (e : Emission) (flow : Flow) (kept : List Code.Statement)
    (f : EntryFunction) : Prop where
  body : f.body = locals e flow ++ kept
  returns : ∀ value, HasReturn f.body value → ∃ v, value = some v

/-! ### Variables at the start -/

theorem blocksWithin_locals (flow : Flow) : Code.blocksWithin (locals e flow) = [] := by
  cases flow with
  | vertex output remap =>
      cases output <;> cases hsize : e.usesBuiltin .pointSize <;>
        simp [locals, hsize, Code.blocksWithin, Code.Statement.blocks]
  | fragment input output color =>
      cases output <;> simp [locals, Code.blocksWithin, Code.Statement.blocks]

theorem leave_notMem_locals (flow : Flow) (value : Option Code.Expr) :
    .leave value ∉ locals e flow := by
  cases flow with
  | vertex output remap =>
      cases output <;> cases hsize : e.usesBuiltin .pointSize <;> simp [locals, hsize]
  | fragment input output color => cases output <;> simp [locals]

/-! ### Entry functions -/

theorem emit_entry (h : emit e o = .ok m) :
    ∃ code, (target (.entry (entryFlow e o))).block e.body = .ok code ∧
      m.entry.result = (result (entryFlow e o)).2 ∧
      m.entry.body = locals e (entryFlow e o) ++ code ++
        if e.body.endsWithLeave then [] else tail (entryFlow e o) := by
  obtain ⟨structs, -, h⟩ := bind_eq_ok.mp h
  obtain ⟨resources, -, h⟩ := bind_eq_ok.mp h
  obtain ⟨constants, -, h⟩ := bind_eq_ok.mp h
  obtain ⟨functions, -, h⟩ := bind_eq_ok.mp h
  obtain ⟨interface, -, h⟩ := bind_eq_ok.mp h
  obtain ⟨entry, hentry, h⟩ := bind_eq_ok.mp h
  cases h
  obtain ⟨params, -, hentry⟩ := bind_eq_ok.mp hentry
  obtain ⟨code, hcode, hentry⟩ := bind_eq_ok.mp hentry
  cases hentry
  exact ⟨code, hcode, rfl, rfl⟩

theorem getLast?_exitThrough (before : List Code.Statement) (field : Code.Expr) (struct : String)
    (value : Option Code.Expr) : (exitThrough before field struct value).getLast? =
      some (.leave (some (.word struct))) := by
  rw [exitThrough, List.getLast?_concat]

/-- A flow that leaves through a struct makes an entry function that returns the struct. -/
theorem returnsStruct_of_leave {flow : Flow} {kept before : List Code.Statement}
    {field : Code.Expr} {struct : String} {f : EntryFunction}
    (hkept : (target (.entry flow)).keepingReturns.block e.body = .ok kept)
    (hbefore : ∀ value, .leave value ∉ before) (hblocks : Code.blocksWithin before = [])
    (hbody : f.body = locals e flow ++ withExitsAll (exitThrough before field struct) kept ++
      if e.body.endsWithLeave then [] else exitThrough before field struct none) :
    ReturnsStruct e flow kept before field struct f := by
  have hexit := leavesAfter_exitThrough hbefore field struct
  have hlast : LeavesAfter before struct
      (if e.body.endsWithLeave then [] else exitThrough before field struct none) := by
    split
    · exact Code.leavesAfter_of_forall_ne fun _ ↦ List.not_mem_nil
    · exact hexit none
  refine ⟨hbody, ?_, ?_⟩
  · intro b hb
    rcases List.mem_cons.mp hb with rfl | hb
    · rw [hbody]
      exact ((Code.leavesAfter_of_forall_ne (leave_notMem_locals flow)).append
        (Code.leavesAfter_withExitsAll hexit kept)).append hlast
    · -- Neither the variables nor the exits have blocks in them.
      have hnone : Code.blocksWithin
          (if e.body.endsWithLeave then [] else exitThrough before field struct none) = [] := by
        split
        · rfl
        · exact blocksWithin_exitThrough hblocks field struct none
      rw [hbody, Code.blocksWithin_append, Code.blocksWithin_append, blocksWithin_locals, hnone,
        List.nil_append, List.append_nil] at hb
      obtain ⟨b', rfl⟩ :=
        Code.mem_blocks_withExitsAll (blocksWithin_exitThrough hblocks field struct) kept hb
      exact Code.leavesAfter_withExitsAll hexit b'
  · rw [hbody]
    cases hends : e.body.endsWithLeave with
    | false =>
        rw [if_neg Bool.false_ne_true, List.getLast?_append, getLast?_exitThrough, Option.some_or]
    | true =>
        obtain ⟨first, value, rfl⟩ := Target.exists_leave_last _ hkept hends
        rw [if_pos rfl, List.append_nil, Code.withExitsAll_append, Code.withExitsAll,
          Code.withExitsAll, Code.Statement.withExits, List.append_nil, ← List.append_assoc,
          List.getLast?_append, getLast?_exitThrough, Option.some_or]

theorem leave_vertex (remap : Bool) : leave (.entry (.vertex true remap)) =
    exitThrough (if remap then [remapDepth] else []) (ofOutput "position") "output" := by
  funext value
  cases value <;> cases remap <;> rfl

theorem leave_fragment (input : Bool) (color : String) :
    leave (.entry (.fragment input true color)) = exitThrough [] (ofFragOut color) "frag_out" := by
  funext value
  cases value <;> rfl

/-- Without a struct, returns stay as they are and nothing is added at the end. -/
theorem leave_of_resultTarget?_eq_none {flow : Flow} (h : resultTarget? flow = none) :
    leave (.entry flow) = (fun value ↦ [.leave value]) ∧ tail flow = [] := by
  refine ⟨funext fun value ↦ ?_, ?_⟩
  · rcases flow with ⟨_ | _, _⟩ | ⟨_, _ | _, _⟩ <;> cases value <;> cases h <;> rfl
  · rcases flow with ⟨_ | _, _⟩ | ⟨_, _ | _, _⟩ <;> cases h <;> rfl

theorem returnsExpr_of_leave {flow : Flow} {kept : List Code.Statement} {f : EntryFunction}
    (hkept : (target (.entry flow)).keepingReturns.block e.body = .ok kept)
    (hvoid : .leave none ∉ Block.within e.body) (hbody : f.body = locals e flow ++ kept) :
    ReturnsExpr e flow kept f := by
  refine ⟨hbody, ?_⟩
  intro value hreturn
  rw [hbody] at hreturn
  rcases Code.hasReturn_append.mp hreturn with ⟨b, hb, hmem⟩ | hreturn
  · rw [blocks, blocksWithin_locals, List.mem_singleton] at hb
    exact (leave_notMem_locals flow value (hb ▸ hmem)).elim
  · obtain ⟨v, hv, hsome⟩ := Target.hasReturn_block _ e.body hkept hreturn
    cases v with
    | none => exact (hvoid hv).elim
    | some e => exact Option.isSome_iff_exists.mp hsome.symm

/-! ### Exits and results -/

/-- A flow leaves through the struct of its stage, unless all exits have a value and the depth stays
as it is. -/
theorem entryFlow_cases (e : Emission) (o : Options) :
    (e.stage = .vertex ∧ entryFlow e o = .vertex true o.remapDepth) ∨
    (∃ input, e.stage = .fragment ∧
      entryFlow e o = .fragment input true (e.primaryOutput?.getD "color")) ∨
    (resultTarget? (entryFlow e o) = none ∧ (result (entryFlow e o)).2 = vector4 ∧
      leavesBare e.usage = false ∧ (o.remapDepth = true → e.stage ≠ .vertex)) := by
  cases hstage : e.stage with
  | vertex =>
      have hflow : entryFlow e o = .vertex (o.remapDepth || leavesBare e.usage ||
          !e.usage.varyings.isEmpty || e.usesBuiltin .position) o.remapDepth := by
        simp [entryFlow, flow, hstage]
      rw [hflow]
      generalize houtput : (o.remapDepth || leavesBare e.usage || !e.usage.varyings.isEmpty ||
        e.usesBuiltin .position) = output
      cases output with
      | true => exact .inl ⟨rfl, rfl⟩
      | false =>
          simp only [Bool.or_eq_false_iff] at houtput
          exact .inr (.inr ⟨rfl, rfl, houtput.1.1.2, by simp [houtput.1.1.1]⟩)
  | fragment =>
      have hflow : entryFlow e o = .fragment (!e.usage.varyings.isEmpty)
          (leavesBare e.usage || !e.usage.outputs.isEmpty || e.usesBuiltin .fragColor)
          (e.primaryOutput?.getD "color") := by
        simp [entryFlow, flow, hstage]
      rw [hflow]
      generalize houtput : (leavesBare e.usage || !e.usage.outputs.isEmpty ||
        e.usesBuiltin .fragColor) = output
      cases output with
      | true => exact .inr (.inl ⟨_, rfl, rfl⟩)
      | false =>
          simp only [Bool.or_eq_false_iff] at houtput
          exact .inr (.inr ⟨rfl, rfl, houtput.1.1, by simp⟩)

theorem inserted_of_vertex (h : e.stage = .vertex) :
    inserted e o = if o.remapDepth then [remapDepth] else [] := by
  simp [inserted, h]

theorem leave_notMem_inserted (value : Option Code.Expr) : .leave value ∉ inserted e o := by
  unfold inserted
  split <;> simp [remapDepth]

theorem blocksWithin_inserted : Code.blocksWithin (inserted e o) = [] := by
  unfold inserted
  split <;> rfl

/-- All exits of an entry function agree with its result. -/
structure ExitsAgree (e : Emission) (o : Options) (kept : List Code.Statement)
    (f : EntryFunction) : Prop where
  vertexOutput : f.result = .named vertexOutput →
    ReturnsStruct e (entryFlow e o) kept (inserted e o) (ofOutput "position") "output" f
  fragmentOut : f.result = .named fragmentOut →
    ReturnsStruct e (entryFlow e o) kept [] (ofFragOut (e.primaryOutput?.getD "color"))
      "frag_out" f
  expr : f.result ≠ .named Wgsl.vertexOutput → f.result ≠ .named Wgsl.fragmentOut →
    ReturnsExpr e (entryFlow e o) kept f
  never_bare : ¬ HasReturn f.body none
  remapped : o.remapDepth = true → e.stage = .vertex → f.result = .named Wgsl.vertexOutput

theorem ReturnsStruct.never_bare {flow : Flow} {kept before : List Code.Statement}
    {field : Code.Expr} {struct : String} {f : EntryFunction}
    (h : ReturnsStruct e flow kept before field struct f) : ¬ HasReturn f.body none := by
  rintro ⟨b, hb, hmem⟩
  obtain ⟨l, l', hsplit⟩ := List.append_of_mem hmem
  cases (h.returns b hb l none l' hsplit).1

theorem ReturnsExpr.never_bare {flow : Flow} {kept : List Code.Statement} {f : EntryFunction}
    (h : ReturnsExpr e flow kept f) : ¬ HasReturn f.body none := by
  intro hreturn
  obtain ⟨v, hv⟩ := h.returns none hreturn
  cases hv

theorem named_ne_vector4 (name : String) : Code.TypeName.named name ≠ vector4 := by
  simp [Code.TypeName.named, vector4, Code.TypeName.ofTy]

theorem exitsAgree_of_emit (h : emit e o = .ok m)
    (hvoid : .leave none ∈ Block.within e.body → e.usage.returnsVoid = true) :
    ∃ kept, (target (.entry (entryFlow e o))).keepingReturns.block e.body = .ok kept ∧
      ExitsAgree e o kept m.entry := by
  obtain ⟨code, hcode, hresult, hbody⟩ := emit_entry h
  obtain ⟨kept, hkept, rfl⟩ := Target.block_withExits _ e.body hcode
  refine ⟨kept, hkept, ?_⟩
  -- The flow settles the result of the function and what stands in the place of a return.
  change m.entry.body = _ ++ withExitsAll (leave (.entry (entryFlow e o))) kept ++ _ at hbody
  rcases entryFlow_cases e o with ⟨hstage, hflow⟩ | ⟨input, hstage, hflow⟩ |
    ⟨htarget, hvector, hbare, hremap⟩
  · have hstruct : ReturnsStruct e (entryFlow e o) kept (inserted e o) (ofOutput "position")
        "output" m.entry := by
      refine returnsStruct_of_leave hkept leave_notMem_inserted blocksWithin_inserted ?_
      rw [inserted_of_vertex hstage, ← leave_vertex, hbody, hflow]
      rfl
    have hresult : m.entry.result = .named vertexOutput := by rw [hresult, hflow, result]
    exact
      { vertexOutput := fun _ ↦ hstruct
        fragmentOut := fun hother ↦ absurd (hresult.symm.trans hother) (by decide)
        expr := fun hother ↦ (hother hresult).elim
        never_bare := hstruct.never_bare
        remapped := fun _ _ ↦ hresult }
  · have hstruct : ReturnsStruct e (entryFlow e o) kept []
        (ofFragOut (e.primaryOutput?.getD "color")) "frag_out" m.entry := by
      refine returnsStruct_of_leave hkept (fun _ ↦ List.not_mem_nil) rfl ?_
      rw [← leave_fragment input, hbody, hflow]
      rfl
    have hresult : m.entry.result = .named fragmentOut := by rw [hresult, hflow, result]
    exact
      { vertexOutput := fun hother ↦ absurd (hresult.symm.trans hother) (by decide)
        fragmentOut := fun _ ↦ hstruct
        expr := fun _ hother ↦ (hother hresult).elim
        never_bare := hstruct.never_bare
        remapped := fun _ hvertex ↦ by cases hstage.symm.trans hvertex }
  · have hexpr : ReturnsExpr e (entryFlow e o) kept m.entry := by
      obtain ⟨hleave, htail⟩ := leave_of_resultTarget?_eq_none htarget
      refine returnsExpr_of_leave hkept (fun hmem ↦ ?_) ?_
      · simp [leavesBare, hvoid hmem] at hbare
      · rw [hbody, hleave, htail, Code.withExitsAll_leave, ite_self, List.append_nil]
    have hne : ∀ name, m.entry.result ≠ .named name := fun name hname ↦
      named_ne_vector4 name (hname.symm.trans (hresult.trans hvector))
    exact
      { vertexOutput := fun hother ↦ (hne _ hother).elim
        fragmentOut := fun hother ↦ (hne _ hother).elim
        expr := fun _ _ ↦ hexpr
        never_bare := hexpr.never_bare
        remapped := fun ho hvertex ↦ (hremap ho hvertex).elim }

/-- However the body of an entry point leaves, its function leaves as the result says, with the
depth mapped once right before every return of a vertex. -/
theorem exits_agree_of_reachable (p : Program) (hp : p.Reachable) (name : String) (o : Options)
    (m : Module) (h : ((Query.wgsl name o).ask p).1 = .ok m) :
    ∃ e kept, p.emissionOf name o.peer = .ok e ∧
      (target (.entry (entryFlow e o))).keepingReturns.block e.body = .ok kept ∧
      ExitsAgree e o kept m.entry := by
  rw [(Query.answers_wgsl name o).ask_eq] at h
  obtain ⟨e, he, hemit⟩ := bind_eq_ok.mp h
  obtain ⟨-, -, -, -, hof⟩ := hp.emission he
  obtain ⟨kept, hkept, hagree⟩ := exitsAgree_of_emit hemit (Usage.returnsVoid_iff hof).mpr
  exact ⟨e, kept, he, hkept, hagree⟩

/-- A vertex entry point that returns a value on one path and nothing on the other. -/
def flipping : List Action :=
  let vector := Ty.ofPrim (.vector .float .four)
  [.uniform "flip" .bool ⟨0, none⟩, .uniform "offset" vector ⟨0, none⟩,
    .entry "vs" .vertex <|
      Recorder.when (.ofHandle .bool (.uniform "flip"))
        (Recorder.leave (.ofHandle vector (.uniform "offset"))) Recorder.otherwiseNothing]

def flippingText : String :=
  "@vertex\nfn vs() -> VertexOutput \x7b\n  var output: VertexOutput;\n  if flip \x7b\n" ++
    "    output.position = offset;\n" ++
    "    output.position.z = (output.position.z + 1.0) * 0.5;\n    return output;\n  \x7d\n" ++
    "  output.position.z = (output.position.z + 1.0) * 0.5;\n  return output;\n\x7d\n"

theorem exits_agree_of_reachable_flipping :
    ∃ m, ((Query.wgsl "vs" ⟨true, none⟩).ask (Action.run flipping)).1 = .ok m ∧
      m.entry.text = flippingText ∧
      ∃ e kept, (Action.run flipping).emissionOf "vs" none = .ok e ∧
        ExitsAgree e ⟨true, none⟩ kept m.entry := by
  have htext : Except.toOption (do
      let m ← ((Query.wgsl "vs" ⟨true, none⟩).ask (Action.run flipping)).1
      return m.entry.text) = some flippingText := by
    decide +kernel
  obtain ⟨m, hm, htext⟩ := bind_eq_ok.mp (eq_ok_of_toOption htext)
  obtain ⟨e, kept, he, -, hagree⟩ :=
    exits_agree_of_reachable _ (Action.reachable_run flipping) "vs" ⟨true, none⟩ m hm
  exact ⟨m, hm, Except.ok.inj htext, e, kept, he, hagree⟩

end Shading.Wgsl
