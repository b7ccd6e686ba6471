import Shading.Glsl.Emit
import Shading.Proofs.Emission.Inventory
import Shading.Proofs.Glsl.Mentions

/-!
# Closed shaders

What a shader declares.  Built-in values are predeclared, and so are the outputs of version 1.00;
everything else that a shader mentions is used by the entry point and declared once.
-/

namespace Shading.Glsl

open Code (Mention)

/-! ### Declarations -/

def Global.symbol? : Global → Option Symbol
  | .input _ _ n => some ⟨.vertexAttribute, n⟩
  | .varying _ _ n => some ⟨.varying, n⟩
  | .output _ _ n => some ⟨.output, n⟩
  | .uniform _ n => some ⟨.resource, n⟩
  | .block _ _ n => some ⟨.resource, n⟩
  | _ => none

def Item.symbol? : Item → Option Symbol
  | .global g => g.symbol?
  | .constant c => some ⟨.constant, c.name⟩
  | .function f => some ⟨.function, f.name⟩
  | _ => none

namespace Shader

/-- What a shader declares, in the order of its text. -/
def symbols (s : Shader) : List Symbol :=
  s.items.filterMap Item.symbol?

def exprs (s : Shader) : List Code.Expr :=
  s.constants.map (·.value) ++ s.functions.flatMap (fun f ↦ Code.exprsAll f.body) ++
    Code.exprsAll s.main

/-- The items in front of the constants. -/
def front (s : Shader) : List Item :=
  s.header.map .directive ++ (s.inputs ++ s.outputs ++ s.uniforms).map .global

theorem items_eq (s : Shader) : s.items =
    s.front ++ s.constants.map .constant ++ (s.functions.map .function ++ [.main s.main]) := by
  simp [items, parts, front, flatten_map_singleton]

theorem symbols_front (s : Shader) : s.front.filterMap Item.symbol? =
    (s.inputs ++ s.outputs ++ s.uniforms).filterMap Global.symbol? := by
  have hheader : (s.header.map Item.directive).filterMap Item.symbol? = [] := by
    simp [List.filterMap_map, List.filterMap_eq_nil_iff, Item.symbol?]
  rw [front, List.filterMap_append, hheader, List.nil_append, List.filterMap_map]
  rfl

theorem symbols_constants (cs : List Code.Constant) :
    (cs.map Item.constant).filterMap Item.symbol? = (cs.map (·.name)).map (.mk .constant) := by
  rw [List.filterMap_map, List.map_map, ← List.filterMap_eq_map']
  rfl

theorem symbols_functions (fs : List Code.Function) :
    (fs.map Item.function).filterMap Item.symbol? = (fs.map (·.name)).map (.mk .function) := by
  rw [List.filterMap_map, List.map_map, ← List.filterMap_eq_map']
  rfl

theorem symbols_eq (s : Shader) : s.symbols =
    (s.inputs ++ s.outputs ++ s.uniforms).filterMap Global.symbol? ++
      (s.constants.map (·.name)).map (.mk .constant) ++
      (s.functions.map (·.name)).map (.mk .function) := by
  have hmain : [Item.main s.main].filterMap Item.symbol? = [] := rfl
  rw [symbols, items_eq, List.filterMap_append, List.filterMap_append, List.filterMap_append,
    symbols_front, symbols_constants, symbols_functions, hmain, List.append_nil]

end Shader

variable {e : Emission} {o : Options} {s : Shader}

structure Parts (e : Emission) (v : Version) (s : Shader) : Prop where
  inputs : inputs e v = .ok s.inputs
  outputs : outputs e v = .ok s.outputs
  uniforms : uniforms e v = .ok s.uniforms
  constants : constants e v = .ok s.constants
  functions : functions e v = .ok s.functions
  main : (target (context e v) (.entry e.stage)).block e.body = .ok s.main

theorem parts_of_emit (h : emit e o = .ok s) : Parts e o.version s := by
  obtain ⟨inputs, hinputs, h⟩ := bind_eq_ok.mp h
  obtain ⟨outputs, houtputs, h⟩ := bind_eq_ok.mp h
  obtain ⟨uniforms, huniforms, h⟩ := bind_eq_ok.mp h
  obtain ⟨constants, hconstants, h⟩ := bind_eq_ok.mp h
  obtain ⟨functions, hfunctions, h⟩ := bind_eq_ok.mp h
  obtain ⟨main, hmain, h⟩ := bind_eq_ok.mp h
  cases h
  exact ⟨hinputs, houtputs, huniforms, hconstants, hfunctions, hmain⟩

theorem symbols_varyings {v : Version} {gs : List Global}
    (h : e.varyingsByLocation.mapM (fun n ↦ varyingGlobal e v n.1) = .ok gs) :
    gs.filterMap Global.symbol? = (e.varyingsByLocation.map Prod.fst).map (.mk .varying) := by
  have hvarying : ∀ (n : String × Nat) g, varyingGlobal e v n.1 = .ok g →
      g.symbol? = some ⟨.varying, n.1⟩ := by
    intro n g hg
    obtain ⟨decl, -, hg⟩ := bind_eq_ok.mp hg
    obtain ⟨type, -, hg⟩ := bind_eq_ok.mp hg
    cases hg
    rfl
  rw [filterMap_mapM h fun n _ ↦ hvarying n, List.filterMap_eq_map', List.map_map]
  rfl

theorem symbols_inputs {v : Version} (hstage : Usage.StageOnly e.stage e.usage) {gs : List Global}
    (h : inputs e v = .ok gs) : gs.filterMap Global.symbol? =
      e.usage.attributes.toList.map (.mk .vertexAttribute) ++
        (e.varyingsByLocation.map Prod.fst).map (.mk .varying) := by
  cases he : e.stage with
  | vertex =>
      simp only [inputs, he] at h
      obtain ⟨attributes, hattributes, h⟩ := bind_eq_ok.mp h
      obtain ⟨varyings, hvaryings, h⟩ := bind_eq_ok.mp h
      cases h
      have hinput : ∀ n g, inputGlobal e v n = .ok g → g.symbol? = some ⟨.vertexAttribute, n⟩ := by
        intro n g hg
        obtain ⟨decl, -, hg⟩ := bind_eq_ok.mp hg
        obtain ⟨type, -, hg⟩ := bind_eq_ok.mp hg
        cases hg
        rfl
      rw [List.filterMap_append, symbols_varyings hvaryings,
        filterMap_mapM hattributes fun n _ ↦ hinput n, List.filterMap_eq_map']
  | fragment =>
      simp only [inputs, he] at h
      obtain ⟨attributes, hattributes, h⟩ := bind_eq_ok.mp h
      obtain ⟨varyings, hvaryings, h⟩ := bind_eq_ok.mp h
      cases hattributes
      cases h
      rw [List.nil_append, symbols_varyings hvaryings, hstage.attributes_eq_nil he, List.map_nil,
        List.nil_append]

/-- The outputs are declared in version 3.00, if there are any or a colour is written. -/
theorem symbols_outputs {v : Version} {gs : List Global} (h : outputs e v = .ok gs) :
    gs.filterMap Global.symbol? = e.outputNames.map (.mk .output) ∨
      gs.filterMap Global.symbol? = [] ∧ (e.stage = .fragment → v = .es300 →
        e.usage.outputs.toList = [] ∧ e.usage.returnsValue = false ∧
          e.usesBuiltin .fragColor = false) := by
  unfold outputs at h
  split at h
  · next hstage =>
    split at h
    · next hnone =>
      have houtputs : e.usage.outputs.toList = [] := by
        have hperm := e.perm_outputsByLocation
        rw [hnone] at hperm
        exact List.nil_perm.mp hperm
      cases h
      cases hcolor : e.usage.returnsValue || e.usesBuiltin .fragColor with
      | true =>
          rw [e.outputNames_of_eq_nil hnone]
          exact .inl rfl
      | false =>
          obtain ⟨hreturns, hbuiltin⟩ := Bool.or_eq_false_iff.mp hcolor
          exact .inr ⟨rfl, fun _ _ ↦ ⟨houtputs, hreturns, hbuiltin⟩⟩
    · next hsome =>
      have houtput : ∀ (n : String × Nat) g, outputGlobal e .es300 n.1 n.2 = .ok g →
          g.symbol? = some ⟨.output, n.1⟩ := by
        intro n g hg
        obtain ⟨decl, -, hg⟩ := bind_eq_ok.mp hg
        obtain ⟨type, -, hg⟩ := bind_eq_ok.mp hg
        cases hg
        rfl
      refine .inl ?_
      rw [filterMap_mapM h fun n _ ↦ houtput n, List.filterMap_eq_map',
        e.outputNames_of_ne_nil hsome, List.map_map]
      rfl
  · next hother =>
    cases h
    exact .inr ⟨rfl, fun hstage hv ↦ (hother hstage hv).elim⟩

theorem symbols_bindingGlobal {v : Version} {blocks : List (String × String)} {h : Handle}
    (hh : h ∈ e.usage.bindings) (hu : e.usage.Declared e.decls) {gs : List Global}
    (hgs : bindingGlobal e v blocks h = .ok gs) :
    gs.filterMap Global.symbol? = [⟨.resource, h.text⟩] := by
  cases Layout.bound_of_declared hu hh with
  | uniform =>
      obtain ⟨decl, -, hgs⟩ := bind_eq_ok.mp hgs
      obtain ⟨type, -, hgs⟩ := bind_eq_ok.mp hgs
      cases hgs
      rfl
  | uniformStruct =>
      obtain ⟨decl, -, hgs⟩ := bind_eq_ok.mp hgs
      cases v with
      | es100 =>
          cases hgs
          rfl
      | es300 =>
          obtain ⟨fields, -, hgs⟩ := bind_eq_ok.mp hgs
          cases hgs
          rfl
  | sampler =>
      obtain ⟨decl, -, hgs⟩ := bind_eq_ok.mp hgs
      obtain ⟨type, -, hgs⟩ := bind_eq_ok.mp hgs
      cases hgs
      rfl

theorem symbols_uniforms {v : Version} (hu : e.usage.Declared e.decls) {gs : List Global}
    (h : uniforms e v = .ok gs) : gs.filterMap Global.symbol? =
      (e.usage.bindings.toList.map Handle.text).map (.mk .resource) := by
  obtain ⟨used, -, h⟩ := bind_eq_ok.mp h
  obtain ⟨structs, hstructs, h⟩ := bind_eq_ok.mp h
  obtain ⟨bindings, hbindings, h⟩ := bind_eq_ok.mp h
  cases h
  have hstruct : ∀ d g, structGlobal v d = .ok g → g.symbol? = none := by
    intro d g hg
    obtain ⟨fields, -, hg⟩ := bind_eq_ok.mp hg
    cases hg
    rfl
  have hnone : structs.filterMap Global.symbol? = [] := by
    rw [filterMap_mapM hstructs fun d _ ↦ hstruct d, List.filterMap_none]
  rw [List.filterMap_append, List.filterMap_append, hnone, List.append_nil,
    filterMap_mapM_flatten hbindings fun h hh _ ↦ symbols_bindingGlobal hh hu]
  rw [List.map_map, List.map_eq_flatMap]
  split <;> rfl

theorem leave_helper (c : Context) (v : Option Code.Expr) :
    ∀ x ∈ Code.exprsAll ((target c .helper).leave v), v = some x := by
  cases v <;> simp [target, leave, Code.exprsAll, Code.Statement.exprs]

/-- What a shader declares is what is used, with outputs as the version has them. -/
theorem inventory_of_parts {v : Version} (h : Parts e v s)
    (hu : Usage.of e.decls e.stage e.body = .ok e.usage) :
    Inventory e.usage s.symbols (s.outputs.filterMap Global.symbol?) where
  perm := by
    have hinputs := symbols_inputs (Usage.stageOnly_of_eq_ok hu) h.inputs
    have huniforms := symbols_uniforms (Usage.declared_of_eq_ok hu) h.uniforms
    have hconstants := (Code.Target.writes_constants hu h.constants).1
    have hfunctions := (Code.Target.writes_functions hu (leave_helper _) h.functions).1
    have hvaryings : (e.varyingsByLocation.map Prod.fst).Perm e.usage.varyings.toList :=
      Layout.perm_names_sortByLocation _ _
    rw [List.perm_iff_count]
    intro a
    have hcount := (hvaryings.map (Symbol.mk .varying)).count_eq a
    simp only [Shader.symbols_eq, List.filterMap_append, hinputs, huniforms, hconstants, hfunctions,
      Usage.symbols, Usage.names, List.flatMap_cons, List.flatMap_nil, List.count_append, hcount,
      List.count_nil]
    omega
  further a ha := by
    rcases symbols_outputs h.outputs with hnames | ⟨hnone, -⟩
    · rw [hnames] at ha
      obtain ⟨n, -, rfl⟩ := List.mem_map.mp ha
      exact .inl rfl
    · rw [hnone] at ha
      cases ha

theorem wants_outputs {v : Version} (h : outputs e v = .ok s.outputs) :
    ∀ a ∈ s.outputs.filterMap Global.symbol?, e.usage.Wants a := by
  intro a ha
  rcases symbols_outputs h with hnames | ⟨hnone, -⟩
  · rw [hnames] at ha
    obtain ⟨n, hn, rfl⟩ := List.mem_map.mp ha
    exact e.mem_outputNames hn
  · rw [hnone] at ha
    cases ha

/-- If an output or a colour is written, all outputs are declared. -/
theorem count_output {v : Version} (h : Parts e v s)
    (hu : Usage.of e.decls e.stage e.body = .ok e.usage) (hstage : e.stage = .fragment)
    (hv : v = .es300) (hwritten : e.usage.outputs.toList ≠ [] ∨ e.usage.returnsValue = true ∨
      e.usesBuiltin .fragColor = true) (n : String) :
    s.symbols.count ⟨.output, n⟩ = e.outputNames.count n := by
  rw [(inventory_of_parts h hu).count_extra rfl]
  rcases symbols_outputs h.outputs with hnames | ⟨-, hnone⟩
  · rw [hnames, count_map_symbol, if_pos rfl]
  · obtain ⟨houtputs, hreturns, hbuiltin⟩ := hnone hstage hv
    simp [houtputs, hreturns, hbuiltin] at hwritten

/-! ### Closed shaders -/

/-- Only the colour of a fragment in version 3.00 is not predeclared. -/
def builtinSymbol (e : Emission) : Version → Builtin → Option Symbol
  | .es300, .fragColor => some ⟨.output, e.colorName⟩
  | _, _ => none

def outputSymbol : Version → String → Option Symbol
  | .es100, _ => none
  | .es300, n => some ⟨.output, n⟩

/-- What a shader has to declare for a mention. -/
def needs (e : Emission) (v : Version) : Mention → Option Symbol :=
  Mention.symbol? (builtinSymbol e v) (outputSymbol v)

/-- Every expression in a shader is one of recorded code and all that its text mentions is used and
declared once, or else it is what takes the value that the entry point returns. -/
def Closed (e : Emission) (v : Version) (s : Shader) : Prop :=
  ∀ x ∈ s.exprs,
    (∃ recorded, lower (context e v) recorded = .ok x ∧
      Accounts e.usage s.symbols (needs e v) (spell (context e v))
        ((vocabulary v).mentions recorded) x) ∨
    (lowerHandle (context e v) (.builtin e.stage.result) = .ok x ∧
      e.usage.returnsValue = true ∧
      ∀ a ∈ needs e v (.handle (.builtin e.stage.result)), s.symbols.count a = 1)

/-- What takes a value that is returned. -/
def TakesResult (c : Context) (stage : Stage) (withValue : Bool) (x : Code.Expr) : Prop :=
  withValue = true ∧ lowerHandle c (.builtin stage.result) = .ok x

theorem leave_entry (c : Context) (stage : Stage) (v : Option Code.Expr) :
    ∀ x ∈ Code.exprsAll ((target c (.entry stage)).leave v), v = some x ∨
      TakesResult c stage v.isSome x := by
  cases v with
  | none => simp [target, leave, Code.exprsAll, Code.Statement.exprs]
  | some y =>
      intro x hx
      cases stage with
      | vertex =>
          simp only [target, leave, Code.exprsAll, Code.Statement.exprs, List.append_nil,
            Option.toList_none, List.mem_cons, List.not_mem_nil, or_false] at hx
          rcases hx with rfl | rfl
          · exact .inr ⟨rfl, rfl⟩
          · exact .inl rfl
      | fragment =>
          simp only [target, leave, Code.exprsAll, Code.Statement.exprs, List.append_nil,
            Option.toList_none, List.mem_cons, List.not_mem_nil, or_false] at hx
          rcases hx with rfl | rfl
          · exact .inr ⟨rfl, rfl⟩
          · exact .inl rfl

theorem writes_of_parts {v : Version} (h : Parts e v s)
    (hu : Usage.of e.decls e.stage e.body = .ok e.usage) {x : Code.Expr} (hx : x ∈ s.exprs) :
    (target (context e v) (.entry e.stage)).Writes e.usage x ∨
      (lowerHandle (context e v) (.builtin e.stage.result) = .ok x ∧
        e.usage.returnsValue = true) := by
  rcases List.mem_append.mp hx with hx | hx
  · refine .inl ?_
    rcases List.mem_append.mp hx with hx | hx
    · obtain ⟨constant, hconstant, rfl⟩ := List.mem_map.mp hx
      exact (Code.Target.writes_constants hu h.constants).2 constant hconstant
    · obtain ⟨f, hf, hx⟩ := List.mem_flatMap.mp hx
      exact (Code.Target.writes_functions hu (leave_helper _) h.functions).2 f hf x hx
  · rcases Code.Target.writes_body hu (leave_entry _ _) h.main hx with
      hx | ⟨value, hleave, hsome, hx⟩
    · exact .inl hx
    · obtain ⟨y, rfl⟩ := Option.isSome_iff_exists.mp hsome
      exact .inr ⟨hx, (Usage.returnsValue_iff hu).mpr ⟨y, hleave⟩⟩

theorem count_builtinSymbol {v : Version} (h : Parts e v s)
    (hu : Usage.of e.decls e.stage e.body = .ok e.usage) {b : Builtin} (hstage : b.stage = e.stage)
    (hb : e.usesBuiltin b = true ∨ e.usage.returnsValue = true) :
    ∀ a ∈ builtinSymbol e v b, s.symbols.count a = 1 := by
  intro a ha
  unfold builtinSymbol at ha
  split at ha
  · cases ha
    rw [count_output h hu hstage.symm rfl (.inr hb.symm), e.count_colorName]
  · cases ha

theorem count_outputSymbol {v : Version} (h : Parts e v s)
    (hu : Usage.of e.decls e.stage e.body = .ok e.usage) {n : String} (hn : n ∈ e.usage.outputs) :
    ∀ a ∈ outputSymbol v n, s.symbols.count a = 1 := by
  intro a ha
  cases v with
  | es100 => cases ha
  | es300 =>
      cases ha
      have hstage := (Usage.stageOnly_of_eq_ok hu).outputs n hn
      rw [count_output h hu hstage rfl (.inl (List.ne_nil_of_mem hn)), e.count_outputNames hn]

/-- Code of which everything is used mentions only what is declared once. -/
theorem accounts_of_holds {v : Version} (h : Parts e v s) (hd : e.decls.NamesApart)
    (hu : Usage.of e.decls e.stage e.body = .ok e.usage) {r : Expr} {x : Code.Expr}
    (hlower : lower (context e v) r = .ok x)
    (hholds : ∀ ev ∈ Usage.Event.ofExpr r, e.usage.Holds ev) :
    Accounts e.usage s.symbols (needs e v) (spell (context e v)) ((vocabulary v).mentions r) x := by
  have hstage := Usage.stageOnly_of_eq_ok hu
  have hused : ∀ a ∈ (vocabulary v).mentions r, ∀ ev ∈ a.event?, e.usage.Holds ev :=
    fun a ha ev hev ↦ hholds ev ((vocabulary v).event_of_mentions r ha hev)
  refine ⟨words_lower _ r hlower, hused, fun a ha symbol hneeds ↦ ?_⟩
  exact (inventory_of_parts h hu).count_eq_one hd (Usage.declared_of_eq_ok hu)
    (fun b hb ↦ count_builtinSymbol h hu (hstage.builtins b hb) (.inl (decide_eq_true hb)))
    (fun n hn ↦ count_outputSymbol h hu hn) (hused a ha) hneeds

theorem closed_of_parts {v : Version} (h : Parts e v s) (hd : e.decls.NamesApart)
    (hu : Usage.of e.decls e.stage e.body = .ok e.usage) : Closed e v s := by
  intro x hx
  rcases writes_of_parts h hu hx with ⟨recorded, hlower, hholds⟩ | ⟨hresult, hreturns⟩
  · exact .inl ⟨recorded, hlower, accounts_of_holds h hd hu hlower hholds⟩
  · have hbuiltin : e.stage.result.stage = e.stage := by cases e.stage <;> rfl
    exact .inr ⟨hresult, hreturns, count_builtinSymbol h hu hbuiltin (.inr hreturns)⟩

end Shading.Glsl
