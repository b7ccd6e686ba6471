import Shading.Proofs.Code.Stores
import Shading.Proofs.Emission.Locations
import Shading.Proofs.Glsl.Predeclared
import Shading.Proofs.Wgsl.Failures

/-!
# The colour of a fragment

A fragment entry point gives its colour by returning it or by writing to the built-in colour, in its
own body or in a helper.  Among the outputs that it uses, the colour goes to the one at location
zero or else to the first one; without any, it goes to location zero.

Main statement: in both versions of GLSL and in WGSL every store of the colour goes to this
location.  Version 1.00 never writes both of its predeclared outputs, and version 3.00 declares an
output for the colour exactly if there is a colour and no output to take it.
-/

namespace Shading

open Layout
open Code (Sink sinksAll)

/-! ### Stores of the colour -/

/-- A returned value is a colour, and so is what is written to the built-in colour or to a part of
it. -/
def Store.IsColor : Store → Prop
  | .assigned target => target.root? = some (.builtin .fragColor)
  | .returned => True

/-- Store by store, the colour goes to a location. -/
def ColorAt (location? : Sink → Option Nat) (k : Nat) (stores : List Store) (sinks : List Sink) :
    Prop :=
  List.Forall₂ (fun store sink ↦ store.IsColor → location? sink = some k) stores sinks

theorem colorAt_of_stored {t : Code.Target} {exit : Sink} {stores : List Store}
    {sinks : List Sink} (h : List.Forall₂ (t.Stored exit) stores sinks)
    {location? : Sink → Option Nat} {k : Nat}
    (hreturned : .returned ∈ stores → location? exit = some k)
    (hassigned : ∀ r x, .assigned r ∈ stores → r.root? = some (.builtin .fragColor) →
      t.expr r = .ok x → location? (.place x) = some k) :
    ColorAt location? k stores sinks := by
  induction h with
  | nil => exact .nil
  | cons hstored _ ih =>
      refine .cons ?_ (ih (fun h ↦ hreturned (List.mem_cons_of_mem _ h))
        fun r x h ↦ hassigned r x (List.mem_cons_of_mem _ h))
      intro hcolor
      cases hstored with
      | assigned hx => exact hassigned _ _ List.mem_cons_self hcolor hx
      | returned => exact hreturned List.mem_cons_self

/-- The location of the colour, given the outputs in the order of their first use. -/
def colorLocation (outputs : List (String × Nat)) : Nat :=
  match outputs with
  | [] => 0
  | (_, i) :: _ => if 0 ∈ outputs.map Prod.snd then 0 else i

namespace Emission

variable {e : Emission}

/-- The output that takes the colour is at its location. -/
theorem primaryOutput?_location (h : Layout.Located e.usage.outputs.toList e.layout.outputs) :
    (e.layout.outputs = [] ∧ e.primaryOutput? = none) ∨
      ∃ n, e.primaryOutput? = some n ∧
        (n, colorLocation e.layout.outputs) ∈ e.layout.outputs := by
  cases houtputs : e.layout.outputs with
  | nil =>
      have hnone : e.usage.outputs.toList = [] := by rw [← h.names, houtputs, List.map_nil]
      refine .inl ⟨rfl, ?_⟩
      rw [primaryOutput?, hnone]
      rfl
  | cons first rest =>
      obtain ⟨m, i⟩ := first
      rw [← houtputs]
      refine .inr ?_
      rw [primaryOutput?]
      split
      · next n hfind =>
        have hzero : e.layout.output? n = some 0 := by simpa using List.find?_some hfind
        have hmem : (n, 0) ∈ e.layout.outputs := mem_of_lookup hzero
        have hlocation : colorLocation e.layout.outputs = 0 := by
          rw [houtputs, colorLocation, ← houtputs, if_pos (List.mem_map_of_mem hmem)]
        exact ⟨n, rfl, hlocation ▸ hmem⟩
      · next hfind =>
        have hzero : 0 ∉ e.layout.outputs.map Prod.snd := by
          intro hmem
          obtain ⟨⟨n, j⟩, hmem, rfl⟩ := List.mem_map.mp hmem
          have hn : n ∈ e.usage.outputs.toList := h.names ▸ List.mem_map_of_mem hmem
          exact List.find?_eq_none.mp hfind n hn (decide_eq_true (h.lookup_eq hmem))
        have hlocation : colorLocation e.layout.outputs = i := by
          rw [houtputs, colorLocation, ← houtputs, if_neg hzero]
        refine ⟨m, ?_, ?_⟩
        · rw [← h.names, houtputs]
          rfl
        · rw [hlocation, houtputs]
          exact List.mem_cons_self

theorem outputLocation_eq (h : Layout.Located e.usage.outputs.toList e.layout.outputs) {n : String}
    {i : Nat} (hmem : (n, i) ∈ e.layout.outputs) : e.outputLocation n = i := by
  rw [outputLocation, output?, h.lookup_eq hmem, Option.getD_some]

/-- A colour that a body or a helper stores is written to the built-in colour. -/
theorem usesBuiltin_of_assigned (hu : Usage.of e.decls e.stage e.body = .ok e.usage)
    {inHelper : Bool} {r : Expr} (hr : e.Writes inHelper r)
    (hroot : r.root? = some (.builtin .fragColor)) : e.usesBuiltin .fragColor = true :=
  decide_eq_true (hr.holds hu (read_of_root? r hroot))

theorem returnsValue_of_returned (hu : Usage.of e.decls e.stage e.body = .ok e.usage)
    (h : .returned ∈ Block.stores true e.body) : e.usage.returnsValue = true := by
  rcases mem_stores h with ⟨_, _, _, hstore, -⟩ | ⟨value, -, hleave⟩
  · cases hstore
  · exact (Usage.returnsValue_iff hu).mpr ⟨value, hleave⟩

end Emission

/-- A list of outputs by location, or the colour alone, is looked up like the outputs themselves. -/
theorem ShowsOutputs.lookup_eq {names : List String} {outputs shown : List (String × Nat)}
    (hshown : ShowsOutputs outputs shown) (h : Layout.Located names outputs)
    (hnames : names.Nodup) {n : String} {i : Nat} (hmem : (n, i) ∈ outputs) :
    shown.lookup n = some i := by
  rcases hshown with rfl | ⟨hnone, -⟩
  · refine lookup_of_mem ?_ (mem_sortByLocation.mpr hmem)
    have hperm := (perm_sortByLocation outputs).map Prod.fst
    rw [h.names] at hperm
    exact hperm.nodup_iff.mpr hnames
  · rw [hnone] at hmem
    cases hmem

/-! ### Shaders -/

namespace Glsl

/-- The locations of the places that a shader has for its outputs: the predeclared ones in version
1.00, the declared ones in version 3.00. -/
def Shader.named? (s : Shader) : Version → Code.Expr → Option Nat
  | .es100, .word w => if w = "gl_FragColor" then some 0 else none
  | .es100, .index (.word w) (.word i) =>
    if w = "gl_FragData" then some (Nat.ofDigitChars 10 i.toList 0) else none
  | .es300, .word w => (s.outputs.filterMap Global.output?).lookup w
  | _, _ => none

def Shader.location? (s : Shader) (v : Version) : Sink → Option Nat :=
  Sink.location? (s.named? v) none

/-- The entry point and the helpers of a shader store the colour at a location. -/
structure StoresColor (e : Emission) (v : Version) (s : Shader) (k : Nat) : Prop where
  main : ColorAt (s.location? v) k (Block.stores true e.body) (sinksAll true s.main)
  functions : ∀ f ∈ s.functions, ∃ h, e.decls.helpers.get? f.name = some h ∧
    ColorAt (s.location? v) k (Block.stores false h.body) (sinksAll false f.body)

variable {e : Emission} {v : Version} {s : Shader}

/-- What is written to the built-in colour, or to a part of it, goes where the colour goes. -/
theorem location?_lower {c : Context} {named? : Code.Expr → Option Nat} {k : Nat}
    (hcolor : c.fragColor.location? named? = some k) : ∀ (r : Expr) {x : Code.Expr},
      r.root? = some (.builtin .fragColor) → lower c r = .ok x → x.location? named? = some k
  | .var h, x, hroot, hx => by
    cases hroot
    cases hx
    exact hcolor
  | .swizzle a channels, x, hroot, hx => by
    obtain ⟨y, hy, hx⟩ := bind_eq_ok.mp hx
    cases hx
    exact Code.location?_member (location?_lower hcolor a hroot hy) _
  | .field a name, x, hroot, hx => by
    obtain ⟨y, hy, hx⟩ := bind_eq_ok.mp hx
    cases hx
    exact Code.location?_member (location?_lower hcolor a hroot hy) _
  | .index a i, x, hroot, hx => by
    obtain ⟨y, hy, hx⟩ := bind_eq_ok.mp hx
    obtain ⟨z, -, hx⟩ := bind_eq_ok.mp hx
    cases hx
    exact Code.location?_index (location?_lower hcolor a hroot hy) _
  | .lit _, x, hroot, hx => by cases hroot
  | .array .., x, hroot, hx => by cases hroot
  | .unary .., x, hroot, hx => by cases hroot
  | .binary .., x, hroot, hx => by cases hroot
  | .call .., x, hroot, hx => by cases hroot

theorem takes_fragment (c : Context) :
    (target c (.entry .fragment)).Takes true true (.place c.fragColor) where
  value _ := rfl
  bare := rfl

theorem takes_helper (c : Context) (exit : Sink) : (target c .helper).Takes false false exit where
  value _ := rfl
  bare := rfl

theorem location?_fragData (s : Shader) (i : Nat) :
    (fragData i).location? (s.named? .es100) = some i := by
  have hword : (Code.Expr.word "gl_FragData").location? (s.named? .es100) = none := by
    simp [Code.Expr.location?, Shader.named?]
  rw [fragData, Code.Expr.location?, hword, Option.none_or, Shader.named?, if_pos rfl]
  simp

theorem location?_fragColor_es100 (s : Shader)
    (h : Layout.Located e.usage.outputs.toList e.layout.outputs) :
    (fragColor e .es100).location? (s.named? .es100) = some (colorLocation e.layout.outputs) := by
  rcases Emission.primaryOutput?_location h with ⟨hnone, hprimary⟩ | ⟨n, hprimary, hmem⟩
  · simp only [fragColor, hprimary, hnone]
    rfl
  · simp only [fragColor, hprimary]
    rw [Emission.outputLocation_eq h hmem]
    exact location?_fragData s _

/-- In version 3.00 there is an output for a colour that is stored. -/
theorem location?_fragColor_es300 (hstage : e.stage = .fragment)
    (houtputs : outputs e .es300 = .ok s.outputs)
    (h : Layout.Located e.usage.outputs.toList e.layout.outputs)
    (hstored : e.usage.returnsValue = true ∨ e.usesBuiltin .fragColor = true) :
    (fragColor e .es300).location? (s.named? .es300) = some (colorLocation e.layout.outputs) := by
  rcases Emission.primaryOutput?_location h with ⟨hnone, hprimary⟩ | ⟨n, hprimary, hmem⟩
  · have hcolor : (e.usage.returnsValue || e.usesBuiltin .fragColor) = true := by
      simpa using hstored
    have hunused : e.outputsByLocation = [] := by
      rw [Emission.outputsByLocation_eq h, hnone]
      rfl
    simp only [outputs, hstage, hunused, hcolor, if_true] at houtputs
    simp only [fragColor, hprimary, hnone, Code.Expr.location?, Shader.named?,
      ← Except.ok.inj houtputs]
    rfl
  · simp only [fragColor, hprimary]
    exact (outputs_outputs hstage h houtputs).lookup_eq h e.usage.outputs.nodup hmem

theorem storesColor_of_parts (h : Parts e v s) (hstage : e.stage = .fragment)
    (hu : Usage.of e.decls e.stage e.body = .ok e.usage)
    (hlocated : Layout.Located e.usage.outputs.toList e.layout.outputs) :
    StoresColor e v s (colorLocation e.layout.outputs) := by
  have hcolor : e.usage.returnsValue = true ∨ e.usesBuiltin .fragColor = true →
      (fragColor e v).location? (s.named? v) = some (colorLocation e.layout.outputs) := by
    intro hstored
    cases v with
    | es100 => exact location?_fragColor_es100 s hlocated
    | es300 => exact location?_fragColor_es300 hstage h.outputs hlocated hstored
  have hassigned : ∀ {inHelper : Bool} {r : Expr} {x : Code.Expr}, e.Writes inHelper r →
      r.root? = some (.builtin .fragColor) → lower (context e v) r = .ok x →
      x.location? (s.named? v) = some (colorLocation e.layout.outputs) := by
    intro inHelper r x hr hroot hx
    exact location?_lower (c := context e v)
      (hcolor (.inr (Emission.usesBuiltin_of_assigned hu hr hroot))) r hroot hx
  constructor
  · have hmain := h.main
    rw [hstage] at hmain
    refine colorAt_of_stored (Code.Target.stored_block (takes_fragment _) e.body hmain) ?_ ?_
    · intro hreturned
      exact hcolor (.inl (Emission.returnsValue_of_returned hu hreturned))
    · intro r x hmem hroot hx
      exact hassigned (.body (mem_exprs_of_assigned hmem)) hroot hx
  · intro f hf
    obtain ⟨name, hname, hf⟩ := (mem_mapM h.functions).mp hf
    obtain ⟨helper, hhelper, hf⟩ := bind_eq_ok.mp hf
    have hget := Declarations.find_eq_ok.mp hhelper
    refine ⟨helper, Code.Target.name_function hf ▸ hget, ?_⟩
    refine colorAt_of_stored (Code.Target.stored_function (takes_helper _ .result) hf) ?_ ?_
    · exact fun hreturned ↦ (returned_notMem_stores hreturned).elim
    · intro r x hmem hroot hx
      exact hassigned (.helper hname hget (List.mem_append_left _ (mem_exprs_of_assigned hmem)))
        hroot hx

/-! ### Predeclared outputs -/

theorem words_fragData (i : Nat) : (fragData i).words = ["gl_FragData", toString i] := by
  simp [fragData]

/-- Among what has no name and the outputs, only the colour is spelled with a predeclared output
of its own, if no output is used. -/
theorem mem_spell_es100 {a : Handle} (hunnamed : a.name? = none ∨ ∃ n, a = .output n) {w : String}
    (hw : w ∈ spell (context e .es100) a) (houtput : w = "gl_FragColor" ∨ w = "gl_FragData") :
    (w = "gl_FragColor" ∧ e.primaryOutput? = none) ∨
      (w = "gl_FragData" ∧ ((∃ n, a = .output n) ∨ e.primaryOutput? ≠ none)) := by
  have hdata : ∀ i, w ∈ (fragData i).words → w = "gl_FragData" := by
    intro i hw
    rw [words_fragData] at hw
    rcases List.mem_cons.mp hw with hw | hw
    · exact hw
    · have hjoined : Joined w := List.mem_singleton.mp hw ▸ joined_nat i
      rcases houtput with rfl | rfl <;> exact absurd hjoined (by decide)
  have hnumbered : ∀ b : Handle, b.Numbered → w ≠ b.text := by
    rintro b hb hw
    have hlist := congrArg String.toList hw
    cases b <;> cases hb <;> rcases houtput with rfl | rfl <;>
      simp [Handle.toList_text_constant, Handle.toList_text_argument,
        Handle.toList_text_localVar] at hlist
  rcases hunnamed with hname | ⟨n, rfl⟩
  · cases a with
    | builtin b =>
        cases b with
        | fragColor =>
            have hw : w ∈ (fragColor e .es100).words := hw
            cases hprimary : e.primaryOutput? with
            | none =>
                simp only [fragColor, hprimary, Code.Expr.words_word, List.mem_singleton] at hw
                exact .inl ⟨hw, rfl⟩
            | some n =>
                simp only [fragColor, hprimary] at hw
                exact .inr ⟨hdata _ hw, .inr (by simp)⟩
        | _ =>
            rcases houtput with rfl | rfl <;>
              simp [spell, lowerHandle, lowerBuiltin, lowerBuiltin.indexed, context,
                Except.toOption] at hw
    | constant i => exact (hnumbered (.constant i) trivial (List.mem_singleton.mp hw)).elim
    | argument i => exact (hnumbered (.argument i) trivial (List.mem_singleton.mp hw)).elim
    | localVar d i => exact (hnumbered (.localVar d i) trivial (List.mem_singleton.mp hw)).elim
    | _ => cases hname
  · exact .inr ⟨hdata _ hw, .inl ⟨n, rfl⟩⟩

/-- Both predeclared outputs are in a shader only if one of them is a name that was chosen. -/
theorem names_of_both (h : Parts e .es100 s)
    (hu : Usage.of e.decls e.stage e.body = .ok e.usage) {x y : Code.Expr} (hx : x ∈ s.exprs)
    (hy : y ∈ s.exprs) (hcolor : "gl_FragColor" ∈ x.words) (hdata : "gl_FragData" ∈ y.words) :
    ∃ inHelper r, e.Writes inHelper r ∧ (r.Names "gl_FragColor" ∨ r.Names "gl_FragData") := by
  have hsource : ∀ {z : Code.Expr} {w : String}, z ∈ s.exprs → w ∈ z.words → ¬ Joined w →
      (∃ inHelper r, e.Writes inHelper r ∧ r.Names w) ∨
        ∃ a, w ∈ spell (context e .es100) a ∧ (a.name? = none ∨ ∃ n, a = .output n) ∧
          ∀ n, a = .output n → n ∈ e.usage.outputs := by
    intro z w hz hw hsplit
    rcases exists_writes_of_parts h hz with ⟨inHelper, r, hr, hlower⟩ | hresult
    · rcases mem_words_lower hlower hw hsplit with hnames | ⟨a, hread, hspell, hunnamed⟩
      · exact .inl ⟨inHelper, r, hr, hnames⟩
      · refine .inr ⟨a, hspell, hunnamed, ?_⟩
        rintro n rfl
        exact hr.holds hu hread
    · refine .inr ⟨.builtin e.stage.result, ?_, .inl rfl, fun n hn ↦ by cases hn⟩
      rwa [← words_lowerHandle hresult]
  rcases hsource hx hcolor (by decide) with ⟨inHelper, r, hr, hnames⟩ | ⟨a, ha, hunnamed, -⟩
  · exact ⟨inHelper, r, hr, .inl hnames⟩
  rcases hsource hy hdata (by decide) with ⟨inHelper, r, hr, hnames⟩ | ⟨b, hb, hunnamed', hused⟩
  · exact ⟨inHelper, r, hr, .inr hnames⟩
  -- The first word is written if no output is used, the second one if there is one.
  exfalso
  obtain ⟨-, hnone⟩ | ⟨hword, -⟩ := mem_spell_es100 hunnamed ha (.inl rfl)
  · obtain ⟨hword, -⟩ | ⟨-, ⟨n, rfl⟩ | hsome⟩ := mem_spell_es100 hunnamed' hb (.inr rfl)
    · exact absurd hword (by decide)
    · rcases e.primaryOutput?_cases with ⟨hempty, -⟩ | ⟨m, -, hsome⟩
      · have hn := hused n rfl
        rw [OrderedSet.mem_def, hempty] at hn
        cases hn
      · cases hnone.symm.trans hsome
    · exact hsome hnone
  · exact absurd hword (by decide)

/-! ### The default output -/

theorem colorOutput_mem_iff (hstage : e.stage = .fragment)
    (h : outputs e .es300 = .ok s.outputs) :
    colorOutput ∈ s.outputs ∧ "color" ∉ e.usage.outputs ↔
      e.usage.outputs.toList = [] ∧
        (e.usage.returnsValue = true ∨ .fragColor ∈ e.usage.builtins) := by
  simp only [outputs, hstage] at h
  split at h
  · next hnone =>
    have hunused : e.usage.outputs.toList = [] := by
      have hperm := e.perm_outputsByLocation
      rw [hnone] at hperm
      exact List.nil_perm.mp hperm
    rw [← Except.ok.inj h, OrderedSet.mem_def, hunused]
    simp [Emission.usesBuiltin]
  · next hsome =>
    constructor
    · rintro ⟨hmem, hcolor⟩
      obtain ⟨⟨n, i⟩, hn, hg⟩ := (mem_mapM h).mp hmem
      obtain ⟨decl, -, hg⟩ := bind_eq_ok.mp hg
      obtain ⟨type, -, hg⟩ := bind_eq_ok.mp hg
      cases hg
      exact (hcolor (Emission.mem_of_outputsByLocation hn).1).elim
    · rintro ⟨hunused, -⟩
      refine (hsome ?_).elim
      rw [Emission.outputsByLocation, hunused]
      rfl

end Glsl

/-! ### Modules -/

namespace Wgsl

/-- The locations of the fields of the struct of fragment outputs. -/
def Module.named? (m : Module) : Code.Expr → Option Nat
  | .member (.word w) field =>
    if w = "frag_out" then ((m.fieldsOf fragmentOut).filterMap Member.place?).lookup field
    else none
  | _ => none

/-- The location of what an entry function returns. -/
def EntryFunction.location? (f : EntryFunction) : Option Nat :=
  f.resultAttributes.findSome? fun
    | .location i => some i
    | _ => none

def Module.location? (m : Module) : Sink → Option Nat :=
  Sink.location? m.named? m.entry.location?

/-- What an entry function assigns, and what it returns unless that is the struct of its
outputs. -/
def EntryFunction.sinks (f : EntryFunction) : List Sink :=
  sinksAll (f.result ≠ .named fragmentOut) f.body

/-- The entry function of a module stores the colour at a location, and helpers never store it. -/
structure StoresColor (e : Emission) (m : Module) (k : Nat) : Prop where
  entry : ColorAt m.location? k (Block.stores true e.body) m.entry.sinks
  functions : ∀ f ∈ m.functions, ∃ h, e.decls.helpers.get? f.name = some h ∧
    ∀ store ∈ Block.stores false h.body, ¬ store.IsColor

variable {e : Emission} {o : Options} {m : Module}

theorem location?_lower {named? : Code.Expr → Option Nat} {k : Nat} {input output : Bool}
    {color : String} (hcolor : (ofFragOut color).location? named? = some k) :
    ∀ (r : Expr) {x : Code.Expr}, r.root? = some (.builtin .fragColor) →
      lower (.entry (.fragment input output color)) r = .ok x → x.location? named? = some k
  | .var h, x, hroot, hx => by
    cases hroot
    cases hx
    exact hcolor
  | .swizzle a channels, x, hroot, hx => by
    obtain ⟨y, hy, hx⟩ := bind_eq_ok.mp hx
    have hcoord : isFragCoordY a channels = false := by
      cases a with
      | var h =>
          cases hroot
          rfl
      | _ => rfl
    rw [hcoord] at hx
    cases hx
    exact Code.location?_member (location?_lower hcolor a hroot hy) _
  | .field a name, x, hroot, hx => by
    obtain ⟨y, hy, hx⟩ := bind_eq_ok.mp hx
    cases hx
    exact Code.location?_member (location?_lower hcolor a hroot hy) _
  | .index a i, x, hroot, hx => by
    obtain ⟨y, hy, hx⟩ := bind_eq_ok.mp hx
    obtain ⟨z, -, hx⟩ := bind_eq_ok.mp hx
    cases hx
    exact Code.location?_index (location?_lower hcolor a hroot hy) _
  | .lit _, x, hroot, hx => by cases hroot
  | .array .., x, hroot, hx => by cases hroot
  | .unary .., x, hroot, hx => by cases hroot
  | .binary .., x, hroot, hx => by cases hroot
  | .call .., x, hroot, hx => by cases hroot

/-- A helper cannot write to a built-in value. -/
theorem root?_ne_builtin {stage : Stage} {b : Builtin} : ∀ (r : Expr) {x : Code.Expr},
    lower (.helper stage) r = .ok x → r.root? ≠ some (.builtin b)
  | .var h, x, hx => by
    intro hroot
    cases hroot
    cases hx
  | .swizzle a channels, x, hx => by
    obtain ⟨y, hy, -⟩ := bind_eq_ok.mp hx
    exact root?_ne_builtin a hy
  | .field a name, x, hx => by
    obtain ⟨y, hy, -⟩ := bind_eq_ok.mp hx
    exact root?_ne_builtin a hy
  | .index a i, x, hx => by
    obtain ⟨y, hy, -⟩ := bind_eq_ok.mp hx
    exact root?_ne_builtin a hy
  | .lit _, x, hx => nofun
  | .array .., x, hx => nofun
  | .unary .., x, hx => nofun
  | .binary .., x, hx => nofun
  | .call .., x, hx => nofun

theorem takes_struct (input : Bool) (color : String) :
    (target (.entry (.fragment input true color))).Takes true false (.place (ofFragOut color)) where
  value _ := rfl
  bare := rfl

theorem takes_direct (input : Bool) (color : String) :
    (target (.entry (.fragment input false color))).Takes true true .result where
  value _ := rfl
  bare := rfl

/-- Neither the variables at the start of an entry function nor its last return are stores. -/
theorem sinks_of_body {f : EntryFunction} {input output : Bool} {color : String}
    {code : List Code.Statement} (hresult : f.result = (result (.fragment input output color)).2)
    (hbody : f.body = locals e (.fragment input output color) ++ code ++
      if e.body.endsWithLeave then [] else tail (.fragment input output color)) :
    f.sinks = sinksAll (!output) code := by
  have hlocals : ∀ returns, sinksAll returns (locals e (.fragment input output color)) = [] := by
    cases output <;> exact fun _ ↦ rfl
  have htail : sinksAll (!output)
      (if e.body.endsWithLeave then [] else tail (.fragment input output color)) = [] := by
    split
    · rfl
    · cases output <;> rfl
  have hstruct : decide (f.result ≠ .named fragmentOut) = !output := by
    rw [hresult]
    cases output with
    | false => exact decide_eq_true (named_ne_vector4 fragmentOut).symm
    | true => exact decide_eq_false fun hne ↦ hne rfl
  rw [EntryFunction.sinks, hstruct, hbody, Code.sinksAll_append, Code.sinksAll_append, hlocals,
    htail, List.nil_append, List.append_nil]

theorem emit_resultAttributes (h : emit e o = .ok m) :
    m.entry.resultAttributes = (result (entryFlow e o)).1 := by
  obtain ⟨structs, -, h⟩ := bind_eq_ok.mp h
  obtain ⟨resources, -, h⟩ := bind_eq_ok.mp h
  obtain ⟨constants, -, h⟩ := bind_eq_ok.mp h
  obtain ⟨functions, -, h⟩ := bind_eq_ok.mp h
  obtain ⟨interface, -, h⟩ := bind_eq_ok.mp h
  obtain ⟨entry, hentry, h⟩ := bind_eq_ok.mp h
  cases h
  obtain ⟨params, -, hentry⟩ := bind_eq_ok.mp hentry
  obtain ⟨code, -, hentry⟩ := bind_eq_ok.mp hentry
  cases hentry
  rfl

/-- The field that takes the colour is at its location. -/
theorem location?_colorField {input : Bool}
    (h : interface e (.fragment input true e.colorName) = .ok m.interface)
    (hlocated : Layout.Located e.usage.outputs.toList e.layout.outputs) :
    (ofFragOut e.colorName).location? m.named? = some (colorLocation e.layout.outputs) := by
  have hfields : outputFields e = .ok (m.fieldsOf fragmentOut) := fieldsOf_fragmentOut h
  have hlookup : ((m.fieldsOf fragmentOut).filterMap Member.place?).lookup e.colorName =
      some (colorLocation e.layout.outputs) := by
    rcases Emission.primaryOutput?_location hlocated with ⟨hnone, hprimary⟩ | ⟨n, hprimary, hmem⟩
    · have hunused : e.outputsByLocation = [] := by
        rw [Emission.outputsByLocation_eq hlocated, hnone]
        rfl
      simp only [outputFields, hunused] at hfields
      rw [← Except.ok.inj hfields, Emission.colorName, hprimary, hnone]
      rfl
    · rw [Emission.colorName, hprimary]
      exact (place?_outputFields hlocated hfields).lookup_eq hlocated e.usage.outputs.nodup hmem
  simpa [ofFragOut, Code.Expr.location?, Module.named?] using hlookup

/-- A helper that stores the colour cannot be written. -/
theorem not_isColor_of_helper (h : emit e o = .ok m) {name : String} {helper : Helper}
    (hname : name ∈ e.usage.helpers) (hget : e.decls.helpers.get? name = some helper)
    {store : Store} (hstore : store ∈ Block.stores false helper.body) : ¬ store.IsColor := by
  intro hcolor
  cases store with
  | returned => exact returned_notMem_stores hstore
  | assigned r =>
      have hr : e.Writes true r :=
        .helper hname hget (List.mem_append_left _ (mem_exprs_of_assigned hstore))
      obtain ⟨x, hx⟩ := exists_lower_of_emit h hr
      exact root?_ne_builtin r hx hcolor

theorem storesColor_of_emit (h : emit e o = .ok m) (hstage : e.stage = .fragment)
    (hu : Usage.of e.decls e.stage e.body = .ok e.usage)
    (hlocated : Layout.Located e.usage.outputs.toList e.layout.outputs) :
    StoresColor e m (colorLocation e.layout.outputs) := by
  obtain ⟨code, hcode, hresult, hbody⟩ := emit_entry h
  have hattributes := emit_resultAttributes h
  obtain ⟨-, -, hinterface, -⟩ := emit_eq_ok h
  have hflow : entryFlow e o = .fragment (!e.usage.varyings.isEmpty)
      (leavesBare e.usage || !e.usage.outputs.isEmpty || e.usesBuiltin .fragColor)
      e.colorName := by
    rw [entryFlow, flow, hstage]
    rfl
  rw [hflow] at hcode hresult hbody hattributes hinterface
  constructor
  · generalize houtput : (leavesBare e.usage || !e.usage.outputs.isEmpty ||
      e.usesBuiltin .fragColor) = output at hcode hresult hbody hattributes hinterface
    cases output with
    | true =>
        have hcolor := location?_colorField hinterface hlocated
        rw [sinks_of_body hresult hbody]
        refine colorAt_of_stored (Code.Target.stored_block (takes_struct _ _) e.body hcode)
          (fun _ ↦ hcolor) ?_
        intro r x _ hroot hx
        exact location?_lower hcolor r hroot hx
    | false =>
        rw [sinks_of_body hresult hbody]
        refine colorAt_of_stored (Code.Target.stored_block (takes_direct _ _) e.body hcode) ?_ ?_
        · intro _
          have hunused : e.usage.outputs.toList = [] := by
            simp only [Bool.or_eq_false_iff, Bool.not_eq_false'] at houtput
            exact List.isEmpty_iff.mp houtput.1.2
          have hempty : e.layout.outputs = [] := by
            rw [← hlocated.map_lookup, hunused, List.map_nil]
          rw [hempty]
          simp [Module.location?, Sink.location?, EntryFunction.location?, hattributes, result,
            colorLocation]
        · intro r x hmem hroot _
          have hused := Emission.usesBuiltin_of_assigned hu (.body (mem_exprs_of_assigned hmem))
            hroot
          simp [hused] at houtput
  · intro f hf
    obtain ⟨name, hname, hf⟩ := (mem_mapM (emit_code h).2).mp hf
    obtain ⟨helper, hhelper, hf⟩ := bind_eq_ok.mp hf
    have hget := Declarations.find_eq_ok.mp hhelper
    exact ⟨helper, Code.Target.name_function hf ▸ hget, fun store ↦
      not_isColor_of_helper h hname hget⟩

end Wgsl

/-! ### Entry points -/

section

variable {p : Program} {name : String} {peer peer' : Option String} {e e' : Emission}

/-- A peer plays a part in the layout only. -/
theorem Program.emissionOf_peer (he : p.emissionOf name peer = .ok e)
    (he' : p.emissionOf name peer' = .ok e') : e' = { e with layout := e'.layout } := by
  obtain ⟨u, hu, he⟩ := bind_eq_ok.mp he
  obtain ⟨_, -, he⟩ := bind_eq_ok.mp he
  obtain ⟨stage, hstage, he⟩ := bind_eq_ok.mp he
  obtain ⟨body, hbody, he⟩ := bind_eq_ok.mp he
  obtain ⟨u', hu', he'⟩ := bind_eq_ok.mp he'
  obtain ⟨_, -, he'⟩ := bind_eq_ok.mp he'
  obtain ⟨stage', hstage', he'⟩ := bind_eq_ok.mp he'
  obtain ⟨body', hbody', he'⟩ := bind_eq_ok.mp he'
  cases hu.symm.trans hu'
  cases hstage.symm.trans hstage'
  cases hbody.symm.trans hbody'
  cases he
  cases he'
  rfl

theorem Program.Reachable.outputsOf_eq (hp : p.Reachable) (he : p.emissionOf name peer = .ok e)
    (hstage : e.stage = .fragment) : outputsOf e.decls e.usage = .ok e.layout.outputs := by
  obtain ⟨vertex, fragment, hallocated, -, ⟨hvertex, -⟩ | ⟨-, rfl⟩⟩ := hp.allocated he
  · cases hvertex.symm.trans hstage
  · exact hallocated.outputs

end

/-- In every shader and every module of a fragment entry point the colour goes to one location,
that of the used output at location zero or else of the first one.  In version 1.00 only one of the
predeclared outputs is written; in version 3.00 an output is declared for the colour exactly if
there is a colour and no output is used. -/
theorem color_stored_at_colorLocation (p : Program) (hp : p.Reachable) (name : String)
    (hstage : p.stageOf name = .ok .fragment) (l : Layout)
    (hl : ((Query.layout name none).ask p).1 = .ok l) :
    ∃ e, p.emissionOf name none = .ok e ∧ e.decls = p.toDeclarations ∧
      ((Query.usage name).ask p).1 = .ok e.usage ∧
      l.outputs.map Prod.fst = e.usage.outputs.toList ∧
      (∀ o s, ((Query.glsl name o).ask p).1 = .ok s →
        Glsl.StoresColor e o.version s (colorLocation l.outputs)) ∧
      (∀ o m, ((Query.wgsl name o).ask p).1 = .ok m →
        Wgsl.StoresColor e m (colorLocation l.outputs)) ∧
      (∀ o s, o.version = .es100 → ((Query.glsl name o).ask p).1 = .ok s →
        ∀ x ∈ s.exprs, ∀ y ∈ s.exprs, "gl_FragColor" ∈ x.words → "gl_FragData" ∈ y.words →
          ∃ inHelper r, e.Writes inHelper r ∧
            (r.Names "gl_FragColor" ∨ r.Names "gl_FragData")) ∧
      ∀ o s, o.version = .es300 → ((Query.glsl name o).ask p).1 = .ok s →
        (Glsl.colorOutput ∈ s.outputs ∧ "color" ∉ e.usage.outputs ↔
          e.usage.outputs.toList = [] ∧
            (e.usage.returnsValue = true ∨ .fragColor ∈ e.usage.builtins)) := by
  rw [(Query.answers_layout name none).ask_eq] at hl
  obtain ⟨e, he, rfl⟩ := hp.exists_emission hl
  obtain ⟨hdecls, hstage', husage, -, hu⟩ := hp.emission he
  rw [← hdecls] at hu
  have hfragment : e.stage = .fragment := Except.ok.inj (hstage'.symm.trans hstage)
  have houtputs := hp.outputsOf_eq he hfragment
  have hlocated := located_of_outputsOf houtputs
  have hparts : ∀ o s, ((Query.glsl name o).ask p).1 = .ok s → Glsl.Parts e o.version s := by
    intro o s hs
    rw [(Query.answers_glsl name o).ask_eq, he, ok_bind] at hs
    exact Glsl.parts_of_emit hs
  refine ⟨e, he, hdecls, ((Query.answers_usage name).ask_eq p).trans husage, hlocated.names,
    ?_, ?_, ?_, ?_⟩
  · intro o s hs
    exact Glsl.storesColor_of_parts (hparts o s hs) hfragment hu hlocated
  · intro o m hm
    rw [(Query.answers_wgsl name o).ask_eq] at hm
    obtain ⟨e', he', hemit⟩ := bind_eq_ok.mp hm
    have hsame := Program.emissionOf_peer he he'
    have hfragment' : e'.stage = .fragment := by rw [hsame, hfragment]
    have houtputs' := hp.outputsOf_eq he' hfragment'
    have hu' : Usage.of e'.decls e'.stage e'.body = .ok e'.usage := by
      rw [hsame]
      exact hu
    have hstores := Wgsl.storesColor_of_emit hemit hfragment' hu' (located_of_outputsOf houtputs')
    have hlayout : e'.layout.outputs = e.layout.outputs := by
      rw [hsame] at houtputs'
      exact Except.ok.inj (houtputs'.symm.trans houtputs)
    rw [hlayout] at hstores
    rw [hsame] at hstores
    exact ⟨hstores.entry, hstores.functions⟩
  · intro o s hv hs x hx y hy
    have hparts := hparts o s hs
    rw [hv] at hparts
    exact Glsl.names_of_both hparts hu hx hy
  · intro o s hv hs
    have hparts := hparts o s hs
    rw [hv] at hparts
    exact Glsl.colorOutput_mem_iff hfragment hparts.outputs

/-- A fragment entry point that gives its colour in two ways and uses two more outputs, neither of
them at location zero. -/
def masked : List Action :=
  let vector := Ty.ofPrim (.vector .float .four)
  let tint := Term.ofHandle vector (.uniform "tint")
  [.uniform "lit" .bool ⟨0, none⟩, .uniform "tint" vector ⟨0, none⟩,
    .output "glow" vector (some 1), .output "mask" vector (some 3),
    .entry "fs" .fragment do
      Recorder.set (.ofHandle vector (.output "mask")) tint
      Recorder.set (.ofHandle vector (.output "glow")) tint
      Recorder.when (.ofHandle .bool (.uniform "lit")) (Recorder.leave tint)
        Recorder.otherwiseNothing
      Recorder.set (.ofHandle vector (.builtin .fragColor)) tint]

/-- The colour goes to the first output that is used, on both paths and in all three texts. -/
theorem color_stored_at_colorLocation_masked :
    ∃ l s s' m e, ((Query.layout "fs" none).ask (Action.run masked)).1 = .ok l ∧
      ((Query.glsl "fs" ⟨.es100, none⟩).ask (Action.run masked)).1 = .ok s ∧
      ((Query.glsl "fs" ⟨.es300, none⟩).ask (Action.run masked)).1 = .ok s' ∧
      ((Query.wgsl "fs" .default).ask (Action.run masked)).1 = .ok m ∧
      (Action.run masked).emissionOf "fs" none = .ok e ∧
      (sinksAll true s.main).map (s.location? .es100) = [some 3, some 1, some 3, some 3] ∧
      (sinksAll true s'.main).map (s'.location? .es300) = [some 3, some 1, some 3, some 3] ∧
      m.entry.sinks.map m.location? = [some 3, some 1, some 3, some 3] ∧
      Glsl.StoresColor e .es100 s 3 ∧ Glsl.StoresColor e .es300 s' 3 ∧
      Wgsl.StoresColor e m 3 := by
  have hrun : Except.toOption (do
      let l ← ((Query.layout "fs" none).ask (Action.run masked)).1
      let s ← ((Query.glsl "fs" ⟨.es100, none⟩).ask (Action.run masked)).1
      let s' ← ((Query.glsl "fs" ⟨.es300, none⟩).ask (Action.run masked)).1
      let m ← ((Query.wgsl "fs" .default).ask (Action.run masked)).1
      let stage ← (Action.run masked).stageOf "fs"
      return (stage, colorLocation l.outputs, [(sinksAll true s.main).map (s.location? .es100),
        (sinksAll true s'.main).map (s'.location? .es300), m.entry.sinks.map m.location?])) =
      some (.fragment, 3, [[some 3, some 1, some 3, some 3], [some 3, some 1, some 3, some 3],
        [some 3, some 1, some 3, some 3]]) := by
    decide +kernel
  obtain ⟨l, hl, hrun⟩ := bind_eq_ok.mp (eq_ok_of_toOption hrun)
  obtain ⟨s, hs, hrun⟩ := bind_eq_ok.mp hrun
  obtain ⟨s', hs', hrun⟩ := bind_eq_ok.mp hrun
  obtain ⟨m, hm, hrun⟩ := bind_eq_ok.mp hrun
  obtain ⟨stage, hstage, hrun⟩ := bind_eq_ok.mp hrun
  have hrun := Except.ok.inj hrun
  simp only [Prod.mk.injEq, List.cons.injEq, and_true] at hrun
  obtain ⟨rfl, hlocation, hmain, hmain', hentry⟩ := hrun
  obtain ⟨e, he, -, -, -, hglsl, hwgsl, -⟩ :=
    color_stored_at_colorLocation _ (Action.reachable_run masked) "fs" hstage l hl
  rw [hlocation] at hglsl hwgsl
  exact ⟨l, s, s', m, e, hl, hs, hs', hm, he, hmain, hmain', hentry,
    hglsl ⟨.es100, none⟩ s hs, hglsl ⟨.es300, none⟩ s' hs', hwgsl .default m hm⟩

end Shading
