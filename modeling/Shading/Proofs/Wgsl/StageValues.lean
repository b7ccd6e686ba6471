import Shading.Proofs.Emission.Closed

/-!
# Stage inputs and outputs of an entry function

In the code of an entry function, attributes, varyings, outputs and built-in values are reached
through its structs, its parameters and the variables at its start.  Whatever its code reaches in
such a way is there: the variable or the parameter is declared, and its struct has the field.
-/

namespace Shading.Wgsl

open Code (spelled)

/-! ### What can be reached -/

/-- What an entry function calls a stage input or output, which is no global in WGSL. -/
def stageName? (e : Emission) : Handle → Option String
  | .builtin .fragColor => some e.colorName
  | .builtin b => some (builtinName b)
  | .vertexAttribute n => some n
  | .varying n => some n
  | .output n => some n
  | _ => none

/-- The variables that an entry function declares in front of its recorded code. -/
inductive StartVariable : Code.Statement → Prop
  | output : StartVariable (.declare (.named vertexOutput) "output" none)
  | pointSize : StartVariable (.declare (.ofTy .float) "point_size" (some (.word "1.0")))
  | fragOut : StartVariable (.declare (.named fragmentOut) "frag_out" none)

/-- How a name can be reached in an entry function with some variables declared at its start. -/
inductive Reached (start : List Code.Statement) (m : Module) : String → Code.Expr → Prop
  | output {a : Member} (hvar : .declare (.named vertexOutput) "output" none ∈ start)
      (hfield : a ∈ m.fieldsOf vertexOutput) : Reached start m a.name (ofOutput a.name)
  | input {a : Member} (hparam : ⟨[], "input", .named fragmentInputName⟩ ∈ m.entry.params)
      (hfield : a ∈ m.fieldsOf fragmentInputName) : Reached start m a.name (ofInput a.name)
  | fragOut {a : Member} (hvar : .declare (.named fragmentOut) "frag_out" none ∈ start)
      (hfield : a ∈ m.fieldsOf fragmentOut) : Reached start m a.name (ofFragOut a.name)
  | param {a : Member} (hparam : a ∈ m.entry.params) : Reached start m a.name (.word a.name)
  /-- The index of a vertex or an instance, which is unsigned in WGSL. -/
  | index {a : Member} (hparam : a ∈ m.entry.params)
      (hname : a.name = "vertex_index" ∨ a.name = "instance_index") :
      Reached start m a.name (.call "i32" [.word a.name])
  | pointSize (hvar : .declare (.ofTy .float) "point_size" (some (.word "1.0")) ∈ start) :
      Reached start m "point_size" (.word "point_size")

variable {e : Emission} {o : Options} {m : Module}

/-- Among members that declare some names there is one of each name. -/
theorem exists_member {members : List Member} {located kind : SymbolKind} {names : List String}
    (h : members.filterMap (Member.symbol? located) = names.map (.mk kind)) {n : String}
    (hn : n ∈ names) : ∃ a ∈ members, a.name = n := by
  have hmem : ⟨kind, n⟩ ∈ members.filterMap (Member.symbol? located) := by
    rw [h]
    exact List.mem_map_of_mem hn
  obtain ⟨a, ha, hsymbol⟩ := List.mem_filterMap.mp hmem
  exact ⟨a, ha, Member.name_of_symbol? hsymbol⟩

/-! ### Vertices -/

theorem reached_position {remap : Bool}
    (h : interface e (.vertex true remap) = .ok m.interface) :
    Reached (locals e (.vertex true remap)) m "position" (ofOutput "position") := by
  obtain ⟨fields, hfields, -⟩ := bind_eq_ok.mp h
  have hstruct := (mem_interface_vertex h).mpr ⟨rfl, fields, hfields, rfl⟩
  have hposition : positionField ∈ m.fieldsOf vertexOutput :=
    Module.mem_fieldsOf.mpr ⟨_, hstruct, rfl, List.mem_cons_self⟩
  exact .output (List.mem_append_left _ List.mem_cons_self) hposition

theorem reached_vertex_varying {remap : Bool}
    (h : interface e (.vertex true remap) = .ok m.interface) {n : String}
    (hn : n ∈ e.usage.varyings) :
    Reached (locals e (.vertex true remap)) m n (ofOutput n) := by
  obtain ⟨fields, hfields, -⟩ := bind_eq_ok.mp h
  have hstruct := (mem_interface_vertex h).mpr ⟨rfl, fields, hfields, rfl⟩
  have hname : n ∈ e.varyingsByLocation.map Prod.fst :=
    (Layout.perm_names_sortByLocation _ _).mem_iff.mpr hn
  obtain ⟨a, ha, rfl⟩ := exists_member (symbols_varyingFields hfields) hname
  apply Reached.output (List.mem_append_left _ List.mem_cons_self)
  exact Module.mem_fieldsOf.mpr ⟨_, hstruct, rfl, List.mem_cons_of_mem _ ha⟩

theorem exists_attributeParam {output remap : Bool}
    (h : params e (.vertex output remap) = .ok m.entry.params)
    (hattributes : e.layout.attributes.map Prod.fst = e.usage.attributes.toList) {n : String}
    (hn : n ∈ e.usage.attributes) : ∃ a ∈ m.entry.params, a.name = n := by
  obtain ⟨attributes, hparams, h⟩ := bind_eq_ok.mp h
  have hname : n ∈ e.layout.attributes.map Prod.fst := by
    rw [hattributes]
    exact hn
  obtain ⟨⟨n, i⟩, hmem, rfl⟩ := List.mem_map.mp hname
  obtain ⟨a, ha, hparam⟩ := exists_mem_of_mem_mapM hparams (Layout.mem_sortByLocation.mpr hmem)
  obtain ⟨decl, -, hparam⟩ := bind_eq_ok.mp hparam
  have hmem : a ∈ m.entry.params := by
    rw [← Except.ok.inj h]
    exact List.mem_append_left _ (List.mem_append_left _ ha)
  cases hparam
  exact ⟨_, hmem, rfl⟩

theorem mem_params_index {output remap : Bool}
    (h : params e (.vertex output remap) = .ok m.entry.params) :
    (e.usesBuiltin .vertexId = true → indexParam "vertex_index" ∈ m.entry.params) ∧
      (e.usesBuiltin .instanceId = true → indexParam "instance_index" ∈ m.entry.params) := by
  obtain ⟨attributes, -, h⟩ := bind_eq_ok.mp h
  rw [← Except.ok.inj h]
  constructor
  · intro hused
    simp [hused]
  · intro hused
    simp [hused]

/-! ### Fragments -/

theorem mem_fragmentBuiltins (e : Emission) :
    (e.usesBuiltin .fragCoord = true → ∃ a ∈ fragmentBuiltins e, a.name = "frag_coord") ∧
      (e.usesBuiltin .frontFacing = true → ∃ a ∈ fragmentBuiltins e, a.name = "front_facing") := by
  constructor
  · intro hused
    simp [fragmentBuiltins, hused]
  · intro hused
    simp [fragmentBuiltins, hused]

/-- A built-in input of a fragment comes as a parameter, or else in the struct of its inputs. -/
theorem reached_fragmentInput {input output : Bool} {color : String}
    (hinterface : interface e (.fragment input output color) = .ok m.interface)
    (hparams : params e (.fragment input output color) = .ok m.entry.params) {name : String}
    (h : ∃ a ∈ fragmentBuiltins e, a.name = name) :
    Reached (locals e (.fragment input output color)) m name
      (fragmentInput (.entry (.fragment input output color)) name) := by
  obtain ⟨a, ha, rfl⟩ := h
  cases input with
  | false =>
      have hmem : a ∈ m.entry.params := by
        rw [← Except.ok.inj hparams]
        exact ha
      exact .param hmem
  | true =>
      obtain ⟨fields, hfields, -⟩ := bind_eq_ok.mp hinterface
      have hstruct := (mem_interface_fragment hinterface).mpr (.inl ⟨rfl, fields, hfields, rfl⟩)
      have hparam : ⟨[], "input", .named fragmentInputName⟩ ∈ m.entry.params := by
        rw [← Except.ok.inj hparams]
        exact List.mem_singleton_self _
      apply Reached.input hparam
      exact Module.mem_fieldsOf.mpr ⟨_, hstruct, rfl, List.mem_append_left _ ha⟩

theorem reached_fragment_varying {output : Bool} {color : String}
    (hinterface : interface e (.fragment true output color) = .ok m.interface)
    (hparams : params e (.fragment true output color) = .ok m.entry.params) {n : String}
    (hn : n ∈ e.usage.varyings) :
    Reached (locals e (.fragment true output color)) m n (ofInput n) := by
  obtain ⟨fields, hfields, -⟩ := bind_eq_ok.mp hinterface
  have hstruct := (mem_interface_fragment hinterface).mpr (.inl ⟨rfl, fields, hfields, rfl⟩)
  have hname : n ∈ e.varyingsByLocation.map Prod.fst :=
    (Layout.perm_names_sortByLocation _ _).mem_iff.mpr hn
  obtain ⟨a, ha, rfl⟩ := exists_member (symbols_varyingFields hfields) hname
  have hparam : ⟨[], "input", .named fragmentInputName⟩ ∈ m.entry.params := by
    rw [← Except.ok.inj hparams]
    exact List.mem_singleton_self _
  apply Reached.input hparam
  exact Module.mem_fieldsOf.mpr ⟨_, hstruct, rfl, List.mem_append_right _ ha⟩

theorem exists_outputFields {input : Bool} {color : String} {structs : List Struct}
    (h : interface e (.fragment input true color) = .ok structs) :
    ∃ fields, outputFields e = .ok fields := by
  cases input with
  | false =>
      obtain ⟨inputs, -, h⟩ := bind_eq_ok.mp h
      obtain ⟨fields, hfields, -⟩ := bind_eq_ok.mp h
      exact ⟨fields, hfields⟩
  | true =>
      obtain ⟨varyings, -, h⟩ := bind_eq_ok.mp h
      obtain ⟨inputs, -, h⟩ := bind_eq_ok.mp h
      obtain ⟨fields, hfields, -⟩ := bind_eq_ok.mp h
      exact ⟨fields, hfields⟩

theorem reached_fragOut {input : Bool} {color : String}
    (h : interface e (.fragment input true color) = .ok m.interface) {n : String}
    (hn : n ∈ e.outputNames) :
    Reached (locals e (.fragment input true color)) m n (ofFragOut n) := by
  obtain ⟨fields, hfields⟩ := exists_outputFields h
  have hstruct := (mem_interface_fragment h).mpr (.inr ⟨rfl, fields, hfields, rfl⟩)
  obtain ⟨a, ha, rfl⟩ := exists_member (symbols_outputFields hfields) hn
  apply Reached.fragOut List.mem_cons_self
  exact Module.mem_fieldsOf.mpr ⟨_, hstruct, rfl, ha⟩

/-! ### Handles -/

theorem colorName_mem (e : Emission) : e.colorName ∈ e.outputNames := by
  apply List.count_pos_iff.mp
  rw [e.count_colorName]
  exact Nat.one_pos

theorem reached_builtin (h : emit e o = .ok m) {b : Builtin} (hstage : b.stage = e.stage)
    (hb : e.usesBuiltin b = true) {n : String} (hn : stageName? e (.builtin b) = some n) :
    Reached (locals e (entryFlow e o)) m n (builtinExpr (.entry (entryFlow e o)) b) := by
  obtain ⟨-, -, hinterface, hparams⟩ := emit_eq_ok h
  cases b with
  | vertexId =>
      obtain rfl := Option.some.inj hn
      obtain ⟨output, remap, hflow, -⟩ := entryFlow_vertex o hstage.symm
      rw [hflow] at hparams ⊢
      exact .index (a := indexParam "vertex_index") ((mem_params_index hparams).1 hb) (.inl rfl)
  | instanceId =>
      obtain rfl := Option.some.inj hn
      obtain ⟨output, remap, hflow, -⟩ := entryFlow_vertex o hstage.symm
      rw [hflow] at hparams ⊢
      exact .index (a := indexParam "instance_index") ((mem_params_index hparams).2 hb) (.inr rfl)
  | position =>
      obtain rfl := Option.some.inj hn
      obtain ⟨remap, hflow⟩ := entryFlow_of_position o hstage.symm hb
      rw [hflow] at hinterface ⊢
      exact reached_position hinterface
  | pointSize =>
      obtain rfl := Option.some.inj hn
      obtain ⟨output, remap, hflow, -⟩ := entryFlow_vertex o hstage.symm
      rw [hflow]
      have hvar : .declare (.ofTy .float) "point_size" (some (.word "1.0")) ∈
          locals e (.vertex output remap) := by
        simp [locals, hb]
      exact .pointSize hvar
  | fragCoord =>
      obtain rfl := Option.some.inj hn
      obtain ⟨input, output, color, hflow, -⟩ := entryFlow_fragment o hstage.symm
      rw [hflow] at hinterface hparams ⊢
      exact reached_fragmentInput hinterface hparams ((mem_fragmentBuiltins e).1 hb)
  | frontFacing =>
      obtain rfl := Option.some.inj hn
      obtain ⟨input, output, color, hflow, -⟩ := entryFlow_fragment o hstage.symm
      rw [hflow] at hinterface hparams ⊢
      exact reached_fragmentInput hinterface hparams ((mem_fragmentBuiltins e).2 hb)
  | fragColor =>
      obtain rfl := Option.some.inj hn
      obtain ⟨input, hflow⟩ := entryFlow_of_written o hstage.symm (.inr hb)
      rw [hflow] at hinterface ⊢
      exact reached_fragOut hinterface (colorName_mem e)

theorem reached_varying (h : emit e o = .ok m) {n : String} (hn : n ∈ e.usage.varyings) :
    Reached (locals e (entryFlow e o)) m n (varyingExpr (.entry (entryFlow e o)) n) := by
  obtain ⟨-, -, hinterface, hparams⟩ := emit_eq_ok h
  cases hstage : e.stage with
  | vertex =>
      obtain ⟨output, remap, hflow, houtput⟩ := entryFlow_vertex o hstage
      obtain rfl := houtput n hn
      rw [hflow] at hinterface ⊢
      exact reached_vertex_varying hinterface hn
  | fragment =>
      obtain ⟨input, output, color, hflow, hinput⟩ := entryFlow_fragment o hstage
      obtain rfl := hinput n hn
      rw [hflow] at hinterface hparams ⊢
      exact reached_fragment_varying hinterface hparams hn

theorem reached_output (h : emit e o = .ok m) (hstage : e.stage = .fragment) {n : String}
    (hn : n ∈ e.usage.outputs) :
    Reached (locals e (entryFlow e o)) m n (outputExpr (.entry (entryFlow e o)) n) := by
  obtain ⟨-, -, hinterface, -⟩ := emit_eq_ok h
  obtain ⟨input, hflow⟩ := entryFlow_of_written o hstage (.inl (List.ne_nil_of_mem hn))
  rw [hflow] at hinterface ⊢
  apply reached_fragOut hinterface
  apply List.count_pos_iff.mp
  rw [e.count_outputNames hn]
  exact Nat.one_pos

/-- A stage input or output that is used is written as something that can be reached. -/
theorem reached_of_holds (h : emit e o = .ok m) (hu : Usage.StageOnly e.stage e.usage)
    (hattributes : e.stage = .vertex →
      e.layout.attributes.map Prod.fst = e.usage.attributes.toList) {x : Handle}
    {n : String} (hn : stageName? e x = some n) (hx : e.usage.Holds (.read x)) :
    ∃ y, lowerHandle (.entry (entryFlow e o)) x = .ok y ∧
      Reached (locals e (entryFlow e o)) m n y := by
  cases x with
  | builtin b => exact ⟨_, rfl, reached_builtin h (hu.builtins b hx) (decide_eq_true hx) hn⟩
  | vertexAttribute x =>
      obtain rfl := Option.some.inj hn
      have hstage := hu.attributes x hx
      obtain ⟨-, -, -, hparams⟩ := emit_eq_ok h
      obtain ⟨output, remap, hflow, -⟩ := entryFlow_vertex o hstage
      rw [hflow] at hparams
      obtain ⟨a, ha, rfl⟩ := exists_attributeParam hparams (hattributes hstage) hx
      exact ⟨_, rfl, .param ha⟩
  | varying x =>
      obtain rfl := Option.some.inj hn
      exact ⟨_, rfl, reached_varying h hx⟩
  | output x =>
      obtain rfl := Option.some.inj hn
      exact ⟨_, rfl, reached_output h (hu.outputs x hx) hx⟩
  | _ => cases hn

/-! ### Entry functions -/

/-- What takes the value that is returned through a struct can be reached. -/
theorem reached_result (h : emit e o = .ok m) {y : Code.Expr}
    (hy : resultTarget? (entryFlow e o) = some y) :
    ∃ n, stageName? e (.builtin e.stage.result) = some n ∧
      Reached (locals e (entryFlow e o)) m n y := by
  obtain ⟨-, -, hinterface, -⟩ := emit_eq_ok h
  rcases entryFlow_cases e o with ⟨hstage, hflow⟩ | ⟨input, hstage, hflow⟩ | ⟨hnone, -⟩
  · rw [hflow] at hinterface hy ⊢
    rw [hstage]
    cases hy
    exact ⟨_, rfl, reached_position hinterface⟩
  · rw [hflow] at hinterface hy ⊢
    rw [hstage]
    cases hy
    exact ⟨_, rfl, reached_fragOut hinterface (colorName_mem e)⟩
  · cases hnone.symm.trans hy

theorem exists_resultTarget? {flow : Flow} {withValue : Bool} {x : Code.Expr}
    (h : LeavesWith flow withValue x) :
    ∃ y, resultTarget? flow = some y ∧ (x = y ∨ x ∈ Code.exprsAll (tail flow)) := by
  rcases h with ⟨-, hx⟩ | hx
  · exact ⟨x, hx, .inl rfl⟩
  · cases hy : resultTarget? flow with
    | none =>
        rw [(leave_of_resultTarget?_eq_none hy).2] at hx
        cases hx
    | some y => exact ⟨y, rfl, .inr hx⟩

/-- An expression in the code of an entry function.  Either it is recorded, and the stage inputs and
outputs among what its text mentions are written as something that can be reached; or it belongs to
leaving through the struct of the results, of which the field that takes a returned value can be
reached. -/
inductive Reaches (e : Emission) (flow : Flow) (start : List Code.Statement) (m : Module)
    (x : Code.Expr) : Prop
  | recorded (r : Expr) (hr : r ∈ Block.exprs e.body) (hx : lower (.entry flow) r = .ok x)
      (hwords : x.words = spelled (spell (.entry flow)) ((vocabulary (.entry flow)).mentions r))
      (hreached : ∀ h n, .handle h ∈ (vocabulary (.entry flow)).mentions r →
        stageName? e h = some n → ∃ y, lowerHandle (.entry flow) h = .ok y ∧ Reached start m n y)
  | result (y : Code.Expr) (n : String) (hy : resultTarget? flow = some y)
      (hn : stageName? e (.builtin e.stage.result) = some n) (hreached : Reached start m n y)
      (hx : x = y ∨ x ∈ Code.exprsAll (tail flow))

theorem startVariable_of_mem_locals {flow : Flow} {s : Code.Statement} (hs : s ∈ locals e flow) :
    StartVariable s := by
  cases flow with
  | vertex output remap =>
      rcases List.mem_append.mp hs with hs | hs
      · split at hs
        · obtain rfl := List.mem_singleton.mp hs
          exact .output
        · cases hs
      · split at hs
        · obtain rfl := List.mem_singleton.mp hs
          exact .pointSize
        · cases hs
  | fragment input output color =>
      rw [locals] at hs
      split at hs
      · obtain rfl := List.mem_singleton.mp hs
        exact .fragOut
      · cases hs

theorem reaches_of_emit (h : emit e o = .ok m)
    (hu : Usage.of e.decls e.stage e.body = .ok e.usage)
    (hattributes : e.stage = .vertex →
      e.layout.attributes.map Prod.fst = e.usage.attributes.toList) :
    ∃ code, m.entry.body = locals e (entryFlow e o) ++ code ∧
      ∀ x ∈ Code.exprsAll code,
        Reaches e (entryFlow e o) (locals e (entryFlow e o)) m x := by
  obtain ⟨code, hcode, -, hbody⟩ := emit_entry h
  rw [List.append_assoc] at hbody
  have hstage := Usage.stageOnly_of_eq_ok hu
  -- Whatever leaves the function goes through the struct of its results.
  have hleaves : ∀ {withValue : Bool} {x : Code.Expr}, LeavesWith (entryFlow e o) withValue x →
      Reaches e (entryFlow e o) (locals e (entryFlow e o)) m x := by
    intro withValue x hx
    obtain ⟨y, hy, hx⟩ := exists_resultTarget? hx
    obtain ⟨n, hn, hreached⟩ := reached_result h hy
    exact .result y n hy hn hreached hx
  refine ⟨_, hbody, ?_⟩
  intro x hx
  rw [Code.exprsAll_append] at hx
  rcases List.mem_append.mp hx with hx | hx
  · rcases Code.Target.origin_block (leave_entry _) e.body hcode x hx with
      ⟨r, hr, hrx⟩ | ⟨value, -, hleave⟩
    · refine .recorded r hr hrx (words_lower _ r x hrx) ?_
      intro y n hy hn
      have hevent := (vocabulary _).event_of_mentions r hy (Option.mem_some_self _)
      have hholds := Usage.holds_body hu (Usage.Event.mem_ofBlock e.body hr hevent)
      exact reached_of_holds h hstage hattributes hn hholds
    · exact hleaves hleave
  · split at hx
    · cases hx
    · exact @hleaves false x (.inr hx)

/-- The body of an entry function has the variables that hold its results and its point size, and
nothing else, in front of the code.  In the code, initialisers included, all stage inputs and
outputs go through something that the function has. -/
theorem stage_values_reached (p : Program) (hp : p.Reachable) (name : String) (o : Options)
    (m : Module) (h : ((Query.wgsl name o).ask p).1 = .ok m) :
    ∃ e code, p.emissionOf name o.peer = .ok e ∧
      m.entry.body = locals e (entryFlow e o) ++ code ∧
      (∀ s ∈ locals e (entryFlow e o), StartVariable s) ∧
      ∀ x ∈ Code.exprsAll code, Reaches e (entryFlow e o) (locals e (entryFlow e o)) m x := by
  rw [(Query.answers_wgsl name o).ask_eq] at h
  obtain ⟨e, he, hemit⟩ := bind_eq_ok.mp h
  obtain ⟨hdecls, -, -, -, hu⟩ := hp.emission he
  rw [← hdecls] at hu
  obtain ⟨code, hbody, hreaches⟩ := reaches_of_emit hemit hu (hp.supplied he).attributes
  exact ⟨e, code, he, hbody, fun s ↦ startVariable_of_mem_locals, hreaches⟩

/-- A fragment entry point whose code starts with a variable that is read from a varying. -/
def faced : List Action :=
  let color := Ty.ofPrim (.vector .float .four)
  let coords := Ty.ofPrim (.vector .float .two)
  [.sampler "image" .plane ⟨0, none⟩, .varying "uv" ⟨coords, none, none, none⟩,
    .output "albedo" color none,
    .entry "fs" .fragment do
      let place ← Recorder.var (.ofHandle coords (.varying "uv"))
      Recorder.when (.builtin .frontFacing)
        (Recorder.set (.ofHandle color (.output "albedo")) (.sample .plane "image" place))
        Recorder.otherwiseNothing]

def facedText : String :=
  "@fragment\nfn fs(input: FragmentInput) -> FragmentOut \x7b\n  var frag_out: FragmentOut;\n" ++
    "  var var_0_0: vec2<f32> = input.uv;\n  if input.front_facing \x7b\n    frag_out.albedo = " ++
    "textureSample(image, image_sampler, var_0_0);\n  \x7d\n  return frag_out;\n\x7d\n"

theorem stage_values_reached_faced :
    ∃ m e code, ((Query.wgsl "fs" .default).ask (Action.run faced)).1 = .ok m ∧
      m.entry.text = facedText ∧ (Action.run faced).emissionOf "fs" none = .ok e ∧
      m.entry.body = locals e (entryFlow e .default) ++ code ∧
      (locals e (entryFlow e .default)).length = 1 ∧
      (∀ s ∈ locals e (entryFlow e .default), StartVariable s) ∧
      (Code.exprsAll code).map Code.Expr.text = ["input.uv", "input.front_facing",
        "frag_out.albedo", "textureSample(image, image_sampler, var_0_0)", "frag_out"] ∧
      ∀ x ∈ Code.exprsAll code,
        Reaches e (entryFlow e .default) (locals e (entryFlow e .default)) m x := by
  have hrun : Except.toOption (do
      let m ← ((Query.wgsl "fs" .default).ask (Action.run faced)).1
      let e ← (Action.run faced).emissionOf "fs" none
      return (m.entry.text, (locals e (entryFlow e .default)).length,
        (Code.exprsAll (m.entry.body.drop 1)).map Code.Expr.text)) =
      some (facedText, 1, ["input.uv", "input.front_facing", "frag_out.albedo",
        "textureSample(image, image_sampler, var_0_0)", "frag_out"]) := by
    decide +kernel
  obtain ⟨m, hm, hrun⟩ := bind_eq_ok.mp (eq_ok_of_toOption hrun)
  obtain ⟨e, he, hrun⟩ := bind_eq_ok.mp hrun
  have hrun := Except.ok.inj hrun
  simp only [Prod.mk.injEq] at hrun
  obtain ⟨htext, hlength, hexprs⟩ := hrun
  obtain ⟨e', code, he', hbody, hstart, hreaches⟩ :=
    stage_values_reached _ (Action.reachable_run faced) "fs" .default m hm
  obtain rfl : e = e' := Except.ok.inj (he.symm.trans he')
  rw [hbody, ← hlength, List.drop_left] at hexprs
  exact ⟨m, e, code, hm, htext, he, hbody, hlength, hstart, hexprs, hreaches⟩

end Shading.Wgsl
