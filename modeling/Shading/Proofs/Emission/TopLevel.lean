import Shading.Proofs.Emission.Lookups
import Shading.Proofs.Usage.Recursion
import Shading.Proofs.Wgsl.Failures

/-!
# Code outside of the entry function

Constants and helpers stand in front of the entry function.  In GLSL what they mention has to be
declared above them, and in WGSL the inputs and outputs of the stage are out of their reach.

Main statement: a helper in GLSL mentions only what is declared above it, and so does a constant,
except that a helper which its initialiser calls always comes later.  In WGSL no helper mentions an
input or output of the stage, and a constant mentions one exactly if its value does.
-/

namespace Shading

open Code (Mention)

/-! ### Shaders -/

/-- An image of `x` that stands neither in front nor at the back is among the images between. -/
theorem exists_of_append_map {α β : Type} {f : α → β} (hf : Function.Injective f)
    {front back above below : List β} {xs : List α} {x : α} (hfront : f x ∉ front)
    (hback : f x ∉ back) (h : front ++ xs.map f ++ back = above ++ f x :: below) :
    ∃ earlier later, xs = earlier ++ x :: later ∧ above = front ++ earlier.map f := by
  induction front generalizing above with
  | nil =>
      induction xs generalizing above with
      | nil =>
          have h : back = above ++ f x :: below := h
          exact (hback (h ▸ by simp)).elim
      | cons y xs ih =>
          cases above with
          | nil =>
              obtain rfl := hf (List.head_eq_of_cons_eq h)
              exact ⟨[], xs, rfl, rfl⟩
          | cons z above =>
              obtain ⟨earlier, later, rfl, rfl⟩ := ih (List.tail_eq_of_cons_eq h)
              exact ⟨y :: earlier, later, rfl, by rw [← List.head_eq_of_cons_eq h]; rfl⟩
  | cons y front ih =>
      cases above with
      | nil =>
          obtain rfl := List.head_eq_of_cons_eq h
          exact (hfront List.mem_cons_self).elim
      | cons z above =>
          obtain ⟨earlier, later, rfl, rfl⟩ :=
            ih (List.not_mem_of_not_mem_cons hfront) (List.tail_eq_of_cons_eq h)
          exact ⟨earlier, later, rfl, by rw [List.head_eq_of_cons_eq h]; rfl⟩

namespace Glsl

/-- What a shader declares before its constants. -/
def Shader.globals (s : Shader) : List Symbol :=
  (s.inputs ++ s.outputs ++ s.uniforms).filterMap Global.symbol?

/-- The declarations of a shader in their order.  Of what a constant mentions all but the helpers
is declared above it, and a function mentions only what is declared above it. -/
structure Ordered (e : Emission) (v : Version) (s : Shader) : Prop where
  constants : ∀ above c below, s.items = above ++ .constant c :: below →
    ∃ i value, c.name = (Handle.constant i).text ∧ e.decls.constants[i]? = some value ∧
      lower (context e v) value.expr = .ok c.value ∧
      Accounts e.usage s.symbols (needs e v) (spell (context e v))
        ((vocabulary v).mentions value.expr) c.value ∧
      ∀ a ∈ (vocabulary v).mentions value.expr, ∀ symbol ∈ needs e v a,
        (symbol ∈ above.filterMap Item.symbol? ↔ ∀ n, a ≠ .helper n)
  functions : ∀ above f below, s.items = above ++ .function f :: below →
    ∃ helper, e.decls.helpers.get? f.name = some helper ∧
      ∀ x ∈ Code.exprsAll f.body, ∃ r ∈ helper.exprs, lower (context e v) r = .ok x ∧
        Accounts e.usage s.symbols (needs e v) (spell (context e v)) ((vocabulary v).mentions r) x ∧
        ∀ a ∈ (vocabulary v).mentions r, ∀ symbol ∈ needs e v a,
          symbol ∈ above.filterMap Item.symbol?

variable {e : Emission} {v : Version} {s : Shader}

theorem symbols_above_constant {above below : List Item} {c : Code.Constant}
    (h : s.items = above ++ .constant c :: below) :
    ∃ earlier later, s.constants = earlier ++ c :: later ∧
      above.filterMap Item.symbol? = s.globals ++ (earlier.map (·.name)).map (.mk .constant) := by
  have hfront : Item.constant c ∉ s.front := by simp [Shader.front]
  have hback : Item.constant c ∉ s.functions.map Item.function ++ [.main s.main] := by simp
  rw [Shader.items_eq] at h
  obtain ⟨earlier, later, hsplit, rfl⟩ :=
    exists_of_append_map (fun _ _ ↦ Item.constant.inj) hfront hback h
  refine ⟨earlier, later, hsplit, ?_⟩
  rw [List.filterMap_append, Shader.symbols_front, Shader.symbols_constants, Shader.globals]

theorem symbols_above_function {above below : List Item} {f : Code.Function}
    (h : s.items = above ++ .function f :: below) :
    ∃ earlier later, s.functions = earlier ++ f :: later ∧
      above.filterMap Item.symbol? = s.globals ++ (s.constants.map (·.name)).map (.mk .constant) ++
        (earlier.map (·.name)).map (.mk .function) := by
  have hfront : Item.function f ∉ s.front ++ s.constants.map Item.constant := by
    simp [Shader.front]
  have hback : Item.function f ∉ [Item.main s.main] := by simp
  rw [Shader.items_eq, ← List.append_assoc] at h
  obtain ⟨earlier, later, hsplit, rfl⟩ :=
    exists_of_append_map (fun _ _ ↦ Item.function.inj) hfront hback h
  refine ⟨earlier, later, hsplit, ?_⟩
  rw [List.filterMap_append, List.filterMap_append, Shader.symbols_front,
    Shader.symbols_constants, Shader.symbols_functions, Shader.globals]

theorem kind_of_globals {symbol : Symbol} (h : symbol ∈ s.globals) :
    symbol.kind ≠ .constant ∧ symbol.kind ≠ .function := by
  obtain ⟨g, -, hg⟩ := List.mem_filterMap.mp h
  cases g <;> cases hg <;> simp

theorem mem_globals_append {names : List String} {symbol : Symbol} :
    symbol ∈ s.globals ++ names.map (.mk .constant) ↔ symbol ∈ s.globals ∨
      symbol.kind = .constant ∧ symbol.name ∈ names := by
  obtain ⟨kind, name⟩ := symbol
  rw [List.mem_append, List.mem_map]
  refine or_congr_right ⟨?_, ?_⟩
  · rintro ⟨n, hn, heq⟩
    cases heq
    exact ⟨rfl, hn⟩
  · rintro ⟨rfl, hn⟩
    exact ⟨name, hn, rfl⟩

/-- All that is no function is declared above the functions. -/
theorem mem_globals_append_of_symbols {symbol : Symbol} (h : symbol ∈ s.symbols)
    (hkind : symbol.kind ≠ .function) :
    symbol ∈ s.globals ++ (s.constants.map (·.name)).map (.mk .constant) := by
  rw [Shader.symbols_eq] at h
  rcases List.mem_append.mp h with h | h
  · exact h
  · obtain ⟨n, -, rfl⟩ := List.mem_map.mp h
    exact (hkind rfl).elim

/-- A mention needs a function, a constant or something that is declared before both. -/
theorem needs_cases {a : Mention} {symbol : Symbol} (h : symbol ∈ needs e v a) :
    (∃ n, a = .helper n ∧ symbol = ⟨.function, n⟩) ∨
      (∃ i, a = .handle (.constant i) ∧ symbol = ⟨.constant, (Handle.constant i).text⟩) ∨
      (∀ n, a ≠ .helper n) ∧ symbol.kind ≠ .constant ∧ symbol.kind ≠ .function := by
  cases a with
  | helper n =>
      cases h
      exact .inl ⟨n, rfl, rfl⟩
  | own ws => cases h
  | handle x =>
      cases x with
      | constant i =>
          cases h
          exact .inr (.inl ⟨i, rfl, rfl⟩)
      | builtin b =>
          have h : symbol ∈ builtinSymbol e v b := h
          unfold builtinSymbol at h
          split at h <;> cases h
          exact .inr (.inr (by simp))
      | output n =>
          have h : symbol ∈ outputSymbol v n := h
          cases v <;> cases h
          exact .inr (.inr (by simp))
      | argument n => cases h
      | localVar i j => cases h
      | _ =>
          cases h
          exact .inr (.inr (by simp))

section Order

variable (hu : Usage.of e.decls e.stage e.body = .ok e.usage) {a : Mention} {symbol : Symbol}
  (hneeds : symbol ∈ needs e v a) (hdeclared : symbol ∈ s.symbols)
include hu hneeds hdeclared

/-- Above a constant stands all that its value mentions, except for helpers. -/
theorem mem_above_constant_iff {i : Nat} {value : Term} {before after : List Nat}
    (hused : e.usage.constants.toList = before ++ i :: after)
    (hget : e.decls.constants[i]? = some value) (ha : a ∈ (vocabulary v).mentions value.expr) :
    symbol ∈ s.globals ++ (before.map fun i ↦ (Handle.constant i).text).map (.mk .constant) ↔
      ∀ n, a ≠ .helper n := by
  rcases needs_cases hneeds with ⟨n, rfl, rfl⟩ | ⟨j, rfl, rfl⟩ | ⟨hhelper, hconstant, hfunction⟩
  · refine iff_of_false ?_ fun hne ↦ hne n rfl
    intro habove
    rcases mem_globals_append.mp habove with hglobal | ⟨hkind, -⟩
    · exact (kind_of_globals hglobal).2 rfl
    · cases hkind
  · -- A constant follows those that its value refers to.
    have hrefers : Usage.RefersTo e.decls i j :=
      ⟨value, hget, (vocabulary v).event_of_mentions value.expr ha rfl⟩
    have hj := (Usage.calleesFirst_of_eq_ok hu).constants_order i j before after hused hrefers
    exact iff_of_true (mem_globals_append.mpr (.inr ⟨rfl, List.mem_map_of_mem hj⟩)) fun n ↦ nofun
  · refine iff_of_true (mem_globals_append.mpr (.inl ?_)) hhelper
    have habove := mem_globals_append_of_symbols hdeclared hfunction
    exact (mem_globals_append.mp habove).resolve_right fun hkind ↦ hconstant hkind.1

/-- Above a function stands all that its helper mentions. -/
theorem mem_above_function {name : String} {helper : Helper} {before after : List String}
    (hused : e.usage.helpers.toList = before ++ name :: after)
    (hget : e.decls.helpers.get? name = some helper) {r : Expr} (hr : r ∈ helper.exprs)
    (ha : a ∈ (vocabulary v).mentions r) :
    symbol ∈ s.globals ++ (s.constants.map (·.name)).map (.mk .constant) ++
      before.map (.mk .function) := by
  rcases needs_cases hneeds with ⟨n, rfl, rfl⟩ | ⟨j, rfl, rfl⟩ | ⟨-, -, hfunction⟩
  · -- A helper follows those that it calls.
    have hcalls : Usage.Calls e.decls name n :=
      .inl ⟨_, congrArg (Option.map Usage.Event.ofHelper) hget,
        Usage.Event.mem_ofHelper hr ((vocabulary v).event_of_mentions r ha rfl)⟩
    have hn := (Usage.calleesFirst_of_eq_ok hu).helpers_order name n before after hused hcalls
    exact List.mem_append_right _ (List.mem_map_of_mem hn)
  · exact List.mem_append_left _ (mem_globals_append_of_symbols hdeclared nofun)
  · exact List.mem_append_left _ (mem_globals_append_of_symbols hdeclared hfunction)

end Order

theorem ordered_of_parts (h : Parts e v s) (hd : e.decls.NamesApart)
    (hu : Usage.of e.decls e.stage e.body = .ok e.usage) : Ordered e v s := by
  constructor
  · intro above c below hitems
    obtain ⟨earlier, later, hsplit, habove⟩ := symbols_above_constant hitems
    have hconstants := h.constants
    rw [hsplit] at hconstants
    obtain ⟨before, i, after, hused, hearlier, hc⟩ := mapM_eq_append_cons hconstants
    obtain ⟨value, hvalue, hc⟩ := bind_eq_ok.mp hc
    obtain ⟨hname, hlower⟩ := Code.Target.origin_constant hc
    have hget := Declarations.constant_eq_ok.mp hvalue
    have hi : i ∈ e.usage.constants := by
      rw [OrderedSet.mem_def, hused]
      exact List.mem_append_right _ List.mem_cons_self
    have hwrites : e.Writes false value.expr := .constant hi hget
    have haccounts := accounts_of_holds h hd hu hlower fun ev ↦ hwrites.holds hu
    refine ⟨i, value, hname, hget, hlower, haccounts, ?_⟩
    intro a ha symbol hneeds
    rw [habove, Code.Target.names_constants hearlier]
    exact mem_above_constant_iff hu hneeds (haccounts.declared ha hneeds) hused hget ha
  · intro above f below hitems
    obtain ⟨earlier, later, hsplit, habove⟩ := symbols_above_function hitems
    have hfunctions := h.functions
    rw [hsplit] at hfunctions
    obtain ⟨before, name, after, hused, hearlier, hf⟩ := mapM_eq_append_cons hfunctions
    obtain ⟨helper, hhelper, hf⟩ := bind_eq_ok.mp hf
    have hget := Declarations.find_eq_ok.mp hhelper
    have hname : name ∈ e.usage.helpers := by
      rw [OrderedSet.mem_def, hused]
      exact List.mem_append_right _ List.mem_cons_self
    refine ⟨helper, Code.Target.name_function hf ▸ hget, fun x hx ↦ ?_⟩
    obtain ⟨r, hr, hlower⟩ := Code.Target.origin_function (leave_helper _) hf hx
    have hwrites : e.Writes true r := .helper hname hget hr
    have haccounts := accounts_of_holds h hd hu hlower fun ev ↦ hwrites.holds hu
    refine ⟨r, hr, hlower, haccounts, ?_⟩
    intro a ha symbol hneeds
    rw [habove, Code.Target.names_functions hearlier]
    exact mem_above_function hu hneeds (haccounts.declared ha hneeds) hused hget hr ha

end Glsl

/-! ### Modules -/

namespace Wgsl

/-- The constants and functions of a module.  No function mentions an input or output of the stage,
and a constant mentions what its value shows. -/
structure Outside (e : Emission) (o : Options) (m : Module) : Prop where
  constants : ∀ c ∈ m.constants, ∃ i value, c.name = (Handle.constant i).text ∧
    e.decls.constants[i]? = some value ∧ lower (placeOf e o false) value.expr = .ok c.value ∧
    c.value.words = Code.spelled (spell (placeOf e o false))
      ((vocabulary (placeOf e o false)).mentions value.expr) ∧
    ∀ h, .handle h ∈ (vocabulary (placeOf e o false)).mentions value.expr ↔
      Rendered value.expr (.var h)
  functions : ∀ f ∈ m.functions, ∃ helper, e.decls.helpers.get? f.name = some helper ∧
    ∀ x ∈ Code.exprsAll f.body, ∃ r ∈ helper.exprs, lower (placeOf e o true) r = .ok x ∧
      x.words = Code.spelled (spell (placeOf e o true))
        ((vocabulary (placeOf e o true)).mentions r) ∧
      ∀ h, .handle h ∈ (vocabulary (placeOf e o true)).mentions r → h.isStageValue = false

/-- A call mentions the handles of those arguments that show. -/
theorem handle_mem_callMentions {place : Place} {callee : Callee} {args : List (List Mention)}
    (htwo : callee.takesTwo = true → args.length = 2) {h : Handle} :
    .handle h ∈ callMentions place callee args ↔ .handle h ∈ (shownArgs callee args).flatten := by
  cases callee with
  | intrinsic f =>
      unfold callMentions
      dsimp only
      cases hspelling : spelling f with
      | not =>
          obtain rfl := spelling_eq_not.mp hspelling
          cases args <;> simp [shownArgs]
      | call name =>
          have hne : f ≠ .notEach := spelling_eq_not.not.mp (by simp [hspelling])
          simp [shownArgs, hne]
      | binary op =>
          have hne : f ≠ .notEach := spelling_eq_not.not.mp (by simp [hspelling])
          simp [shownArgs, hne]
  | construct p => simp [callMentions, shownArgs]
  | helper name => simp [callMentions, shownArgs]
  | texelFetch kind => cases args <;> simp [callMentions, shownArgs]
  | texture kind =>
      obtain ⟨texture, coords, rfl⟩ := List.length_eq_two.mp (htwo rfl)
      unfold callMentions sampleMentions
      cases kind <;> by_cases hstage : place.stage? = some .vertex <;> simp [shownArgs, hstage]

theorem handle_mem_mentions {place : Place} {r : Expr} (hr : Writable place r) {h : Handle} :
    .handle h ∈ (vocabulary place).mentions r ↔
      r = .var h ∨ ∃ c ∈ shown r, .handle h ∈ (vocabulary place).mentions c := by
  cases r with
  | call callee args =>
      have hcall : .handle h ∈ (vocabulary place).mentions (.call callee args) ↔
          .handle h ∈ (shownArgs callee ((vocabulary place).mentionsEach args)).flatten := by
        refine handle_mem_callMentions fun htwo ↦ ?_
        rw [Code.Vocabulary.mentionsEach_eq_map, List.length_map]
        exact hr htwo
      rw [hcall, Code.Vocabulary.mentionsEach_eq_map]
      by_cases hnot : callee = .intrinsic .notEach
      · simp [shownArgs, hnot, shown, ← List.map_take]
      · simp [shownArgs, hnot, shown_call_of_ne hnot]
  | array t items =>
      simp [Code.Vocabulary.mentions, Code.Vocabulary.mentionsEach_eq_map, shown, Expr.children]
  | _ => simp [Code.Vocabulary.mentions, shown, Expr.children, eq_comm]

/-- What can be written mentions the handles that it shows. -/
theorem handle_mem_mentions_iff {place : Place} {r : Expr} (hr : ∃ x, lower place r = .ok x)
    {h : Handle} : .handle h ∈ (vocabulary place).mentions r ↔ Rendered r (.var h) := by
  induction r using Expr.induction_on_children with
  | step r ih =>
      obtain ⟨hown, hshown⟩ := (exists_lower_iff_shown place r).mp hr
      rw [handle_mem_mentions hown]
      constructor
      · rintro (rfl | ⟨c, hc, hmem⟩)
        · exact .refl _
        · exact .child hc ((ih c (mem_children_of_shown hc) (hshown c hc)).mp hmem)
      · intro hrendered
        cases hrendered with
        | refl => exact .inl rfl
        | child hc hrendered =>
            exact .inr ⟨_, hc, (ih _ (mem_children_of_shown hc) (hshown _ hc)).mpr hrendered⟩

variable {e : Emission} {o : Options} {m : Module}

theorem outside_of_emit (h : emit e o = .ok m) : Outside e o m := by
  obtain ⟨hconstants, hfunctions⟩ := emit_code h
  obtain ⟨hplain, -⟩ := (writable_iff e o).mp fun inHelper r hr ↦
    (exists_lower_iff _ r).mp (exists_lower_of_emit h hr)
  constructor
  · intro c hc
    obtain ⟨i, -, hc⟩ := (mem_mapM hconstants).mp hc
    obtain ⟨value, hvalue, hc⟩ := bind_eq_ok.mp hc
    obtain ⟨hname, hlower⟩ := Code.Target.origin_constant hc
    exact ⟨i, value, hname, Declarations.constant_eq_ok.mp hvalue, hlower,
      words_lower _ value.expr _ hlower, fun x ↦ handle_mem_mentions_iff ⟨_, hlower⟩⟩
  · intro f hf
    obtain ⟨name, hname, hf⟩ := (mem_mapM hfunctions).mp hf
    obtain ⟨helper, hhelper, hf⟩ := bind_eq_ok.mp hf
    have hget := Declarations.find_eq_ok.mp hhelper
    refine ⟨helper, Code.Target.name_function hf ▸ hget, fun x hx ↦ ?_⟩
    obtain ⟨r, hr, hlower⟩ := Code.Target.origin_function (leave_helper _) hf hx
    refine ⟨r, hr, hlower, words_lower _ r _ hlower, fun a ha ↦ ?_⟩
    exact hplain r (.helper hname hget hr) a ((handle_mem_mentions_iff ⟨x, hlower⟩).mp ha)

end Wgsl

/-! ### Entry points -/

/-- The constants and helpers of every shader mention what is declared above them and, in the
constants, helpers that are declared below.  In a module the helpers mention no input or output of
the stage, and the constants mention those that their values show. -/
theorem topLevel_mentions_of_reachable (p : Program) (hp : p.Reachable) (name : String) :
    (∀ o s, ((Query.glsl name o).ask p).1 = .ok s →
      ∃ e, p.emissionOf name none = .ok e ∧ e.decls = p.toDeclarations ∧
        Glsl.Ordered e o.version s) ∧
    ∀ o m, ((Query.wgsl name o).ask p).1 = .ok m →
      ∃ e, p.emissionOf name o.peer = .ok e ∧ e.decls = p.toDeclarations ∧ Wgsl.Outside e o m := by
  constructor
  · intro o s hs
    rw [(Query.answers_glsl name o).ask_eq] at hs
    obtain ⟨e, he, hemit⟩ := bind_eq_ok.mp hs
    obtain ⟨hdecls, -, -, -, hu⟩ := hp.emission he
    rw [← hdecls] at hu
    exact ⟨e, he, hdecls,
      Glsl.ordered_of_parts (Glsl.parts_of_emit hemit) (hdecls ▸ hp.sound.apart) hu⟩
  · intro o m hm
    rw [(Query.answers_wgsl name o).ask_eq] at hm
    obtain ⟨e, he, hemit⟩ := bind_eq_ok.mp hm
    exact ⟨e, he, (hp.emission he).1, Wgsl.outside_of_emit hemit⟩

/-- A vertex entry point with a constant that reads an attribute, and one that calls a helper. -/
def displaced : List Action :=
  let vector := Ty.ofPrim (.vector .float .four)
  let origin := Term.ofHandle vector (.constant 0)
  [.vertexAttribute "place" vector none, .uniform "offset" vector ⟨0, none⟩,
    .helper "base" [] (return some (.ofHandle vector (.uniform "offset"))),
    .helper "shift" [] (return some (.call (.helper "base") vector [])),
    .constant (.ofHandle vector (.vertexAttribute "place")),
    .constant (.arithmetic .add origin (.call (.helper "shift") vector [])),
    .entry "vs" .vertex (Recorder.leave (.ofHandle vector (.constant 1)))]

theorem topLevel_mentions_of_reachable_displaced :
    ∃ s m e, ((Query.glsl "vs" .default).ask (Action.run displaced)).1 = .ok s ∧
      ((Query.wgsl "vs" .default).ask (Action.run displaced)).1 = .ok m ∧
      s.constants.map (·.name) = ["glob_0", "glob_1"] ∧
      s.functions.map (·.name) = ["base", "shift"] ∧
      (Action.run displaced).emissionOf "vs" none = .ok e ∧
      Glsl.Ordered e .es300 s ∧ Wgsl.Outside e .default m := by
  have hrun : Except.toOption (do
      let s ← ((Query.glsl "vs" .default).ask (Action.run displaced)).1
      let _ ← ((Query.wgsl "vs" .default).ask (Action.run displaced)).1
      return [s.constants.map (·.name), s.functions.map (·.name)]) =
      some [["glob_0", "glob_1"], ["base", "shift"]] := by
    decide +kernel
  obtain ⟨s, hs, hrun⟩ := bind_eq_ok.mp (eq_ok_of_toOption hrun)
  obtain ⟨m, hm, hrun⟩ := bind_eq_ok.mp hrun
  have hrun := Except.ok.inj hrun
  simp only [List.cons.injEq, and_true] at hrun
  obtain ⟨hconstants, hfunctions⟩ := hrun
  obtain ⟨hglsl, hwgsl⟩ :=
    topLevel_mentions_of_reachable _ (Action.reachable_run displaced) "vs"
  obtain ⟨e, he, -, hordered⟩ := hglsl _ s hs
  obtain ⟨e', he', -, houtside⟩ := hwgsl _ m hm
  cases he.symm.trans he'
  exact ⟨s, m, e, hs, hm, hconstants, hfunctions, he, hordered, houtside⟩

/-- A shader calls a helper in an initialiser above the declaration of the helper, and a module
reads an attribute outside of its entry function. -/
theorem initialisers_of_displaced :
    (Action.run displaced).Reachable ∧
      (Action.run displaced).attributes.contains "place" = true ∧
      ∃ s m, ((Query.glsl "vs" .default).ask (Action.run displaced)).1 = .ok s ∧
        ((Query.wgsl "vs" .default).ask (Action.run displaced)).1 = .ok m ∧
        s.items.filterMap Glsl.Item.symbol? =
          [⟨.vertexAttribute, "place"⟩, ⟨.resource, "offset"⟩, ⟨.constant, "glob_0"⟩,
            ⟨.constant, "glob_1"⟩, ⟨.function, "base"⟩, ⟨.function, "shift"⟩] ∧
        s.constants.map (·.value.words) = [["place"], ["glob_0", "shift"]] ∧
        m.constants.map (·.value.words) = [["place"], ["glob_0", "shift"]] := by
  have hrun : Except.toOption (do
      let s ← ((Query.glsl "vs" .default).ask (Action.run displaced)).1
      let m ← ((Query.wgsl "vs" .default).ask (Action.run displaced)).1
      return (s.items.filterMap Glsl.Item.symbol?,
        s.constants.map (·.value.words), m.constants.map (·.value.words))) =
      some ([⟨.vertexAttribute, "place"⟩, ⟨.resource, "offset"⟩, ⟨.constant, "glob_0"⟩,
          ⟨.constant, "glob_1"⟩, ⟨.function, "base"⟩, ⟨.function, "shift"⟩],
        [["place"], ["glob_0", "shift"]], [["place"], ["glob_0", "shift"]]) := by
    decide +kernel
  obtain ⟨s, hs, hrun⟩ := bind_eq_ok.mp (eq_ok_of_toOption hrun)
  obtain ⟨m, hm, hrun⟩ := bind_eq_ok.mp hrun
  have hrun := Except.ok.inj hrun
  simp only [Prod.mk.injEq] at hrun
  obtain ⟨hsymbols, hshader, hmodule⟩ := hrun
  exact ⟨Action.reachable_run displaced, by decide +kernel, s, m, hs, hm, hsymbols, hshader,
    hmodule⟩

end Shading
