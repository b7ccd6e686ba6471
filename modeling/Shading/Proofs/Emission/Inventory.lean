import Shading.Proofs.Body.Hygiene
import Shading.Proofs.Code.Mentions
import Shading.Proofs.Layout.Locations
import Shading.Proofs.Layout.Sides
import Shading.Proofs.Usage.Coverage

/-!
# Inventories

The names that a text declares, and what has to be declared for a mention of a handle or a helper.
If the declared names are those that the entry point uses, then whatever the text mentions is
declared once, and nothing else is declared.
-/

namespace Shading

/-! ### Names in order -/

/-- Parts of one item each. -/
theorem flatten_map_singleton {α β : Type} (f : α → β) (xs : List α) :
    (xs.map fun x ↦ [f x]).flatten = xs.map f := by
  rw [← List.flatMap_def, ← List.map_eq_flatMap]

theorem Handle.text_constant_injective : Function.Injective fun i ↦ (Handle.constant i).text := by
  intro i j h
  have hi : (Handle.constant i).Numbered := trivial
  have hj : (Handle.constant j).Numbered := trivial
  exact Handle.constant.inj (hi.eq_of_text hj h)

theorem filterMap_mapM {α β γ : Type} {f : α → Except Error β} {xs : List α} {ys : List β}
    (h : xs.mapM f = .ok ys) {pick : β → Option γ} {key : α → Option γ}
    (hkey : ∀ x ∈ xs, ∀ y, f x = .ok y → pick y = key x) :
    ys.filterMap pick = xs.filterMap key := by
  have hmap := congrArg (List.filterMap id) (map_mapM h hkey)
  rwa [List.filterMap_map, List.filterMap_map] at hmap

theorem filterMap_mapM_flatten {α β γ : Type} {f : α → Except Error (List β)} {xs : List α}
    {ys : List (List β)} (h : xs.mapM f = .ok ys) {pick : β → Option γ} {key : α → List γ}
    (hkey : ∀ x ∈ xs, ∀ y, f x = .ok y → y.filterMap pick = key x) :
    ys.flatten.filterMap pick = xs.flatMap key := by
  rw [List.filterMap_flatten, map_mapM h hkey, List.flatMap_def]

/-! ### Outputs -/

namespace Emission

/-- The outputs of a fragment, by location, or else the one for the colour. -/
def outputNames (e : Emission) : List String :=
  match e.outputsByLocation with
  | [] => ["color"]
  | used => used.map Prod.fst

/-- The name of the output that the colour of a fragment goes to. -/
def colorName (e : Emission) : String :=
  e.primaryOutput?.getD "color"

variable (e : Emission)

theorem perm_outputsByLocation :
    (e.outputsByLocation.map Prod.fst).Perm e.usage.outputs.toList :=
  Layout.perm_names_sortByLocation _ _

theorem primaryOutput?_cases : (e.usage.outputs.toList = [] ∧ e.primaryOutput? = none) ∨
    ∃ n ∈ e.usage.outputs, e.primaryOutput? = some n := by
  rw [primaryOutput?]
  split
  · next n hfind => exact .inr ⟨n, List.mem_of_find?_eq_some hfind, rfl⟩
  · cases houtputs : e.usage.outputs.toList with
    | nil => exact .inl ⟨rfl, rfl⟩
    | cons n rest =>
        refine .inr ⟨n, ?_, rfl⟩
        rw [OrderedSet.mem_def, houtputs]
        exact List.mem_cons_self

theorem outputNames_of_eq_nil (h : e.outputsByLocation = []) : e.outputNames = ["color"] := by
  rw [outputNames, h]

theorem outputNames_of_ne_nil (h : e.outputsByLocation ≠ []) :
    e.outputNames = e.outputsByLocation.map Prod.fst := by
  rw [outputNames]
  split
  · next hnone => exact (h hnone).elim
  · rfl

theorem outputNames_cases :
    (e.usage.outputs.toList = [] ∧ e.outputNames = ["color"]) ∨
      (e.usage.outputs.toList ≠ [] ∧ e.outputNames.Perm e.usage.outputs.toList) := by
  have hperm := e.perm_outputsByLocation
  by_cases h : e.outputsByLocation = []
  · rw [h] at hperm
    exact .inl ⟨List.nil_perm.mp hperm, e.outputNames_of_eq_nil h⟩
  · refine .inr ⟨?_, e.outputNames_of_ne_nil h ▸ hperm⟩
    intro hnone
    rw [hnone, List.perm_nil, List.map_eq_nil_iff] at hperm
    exact h hperm

theorem mem_outputNames {n : String} (h : n ∈ e.outputNames) :
    n ∈ e.usage.outputs ∨ e.usage.outputs.toList = [] ∧ n = "color" := by
  rcases e.outputNames_cases with ⟨hnone, hnames⟩ | ⟨-, hperm⟩
  · rw [hnames, List.mem_singleton] at h
    exact .inr ⟨hnone, h⟩
  · exact .inl (hperm.mem_iff.mp h)

theorem count_outputNames {n : String} (h : n ∈ e.usage.outputs) : e.outputNames.count n = 1 := by
  rcases e.outputNames_cases with ⟨hnone, -⟩ | ⟨-, hperm⟩
  · rw [OrderedSet.mem_def, hnone] at h
    cases h
  · rw [hperm.count_eq]
    exact List.count_eq_one_of_mem e.usage.outputs.nodup h

theorem count_colorName : e.outputNames.count e.colorName = 1 := by
  rw [colorName]
  rcases e.primaryOutput?_cases with ⟨hnone, hprimary⟩ | ⟨n, hn, hprimary⟩
  · rcases e.outputNames_cases with ⟨-, hnames⟩ | ⟨hsome, -⟩
    · rw [hprimary, hnames]
      decide
    · exact (hsome hnone).elim
  · rw [hprimary]
    exact e.count_outputNames hn

end Emission

/-! ### Symbols -/

inductive SymbolKind where
  | vertexAttribute
  | varying
  | output
  /-- A uniform, a struct uniform or a sampler. -/
  | resource
  /-- What a texture is sampled with, where that is declared apart. -/
  | samplerObject
  | constant
  | function
  | builtin
  deriving DecidableEq, Repr

/-- A name that a text declares, with what it stands for. -/
structure Symbol where
  kind : SymbolKind
  name : String
  deriving DecidableEq, Repr

@[simp] theorem count_map_symbol (k k' : SymbolKind) (n : String) (names : List String) :
    (names.map (Symbol.mk k')).count ⟨k, n⟩ = if k = k' then names.count n else 0 := by
  split
  · next hk =>
    subst hk
    exact List.count_map_of_injective names _ (fun a b hab ↦ (Symbol.mk.inj hab).2) n
  · next hk =>
    apply List.count_eq_zero_of_not_mem
    simp [Ne.symm hk]

/-- What has to be declared for a mention.  The languages differ in built-in values and outputs. -/
def Code.Mention.symbol? (builtin : Builtin → Option Symbol) (output : String → Option Symbol) :
    Mention → Option Symbol
  | .handle (.builtin b) => builtin b
  | .handle (.output n) => output n
  | .handle (.vertexAttribute n) => some ⟨.vertexAttribute, n⟩
  | .handle (.varying n) => some ⟨.varying, n⟩
  | .handle (.uniform n) => some ⟨.resource, n⟩
  | .handle (.uniformStruct n) => some ⟨.resource, n⟩
  | .handle (.sampler n) => some ⟨.resource, n⟩
  | .handle (.constant i) => some ⟨.constant, (Handle.constant i).text⟩
  | .helper n => some ⟨.function, n⟩
  | _ => none

namespace Usage

variable {u : Usage} {d : Declarations}

/-- The names of what is used, for the kinds that both languages declare alike. -/
def names (u : Usage) : SymbolKind → List String
  | .vertexAttribute => u.attributes.toList
  | .varying => u.varyings.toList
  | .resource => u.bindings.toList.map Handle.text
  | .constant => u.constants.toList.map fun i ↦ (Handle.constant i).text
  | .function => u.helpers.toList
  | _ => []

def symbols (u : Usage) : List Symbol :=
  [.vertexAttribute, .varying, .resource, .constant, .function].flatMap fun k ↦
    (u.names k).map (.mk k)

theorem mem_symbols {s : Symbol} : s ∈ u.symbols ↔ s.name ∈ u.names s.kind := by
  obtain ⟨k, n⟩ := s
  cases k <;> simp [symbols] <;> simp [names]

theorem count_symbols (u : Usage) (s : Symbol) :
    u.symbols.count s = (u.names s.kind).count s.name := by
  obtain ⟨k, n⟩ := s
  cases k <;> simp [symbols] <;> simp [names]

/-- A symbol stands for something that is used.  A fragment that uses no output has one for its
colour. -/
def Wants (u : Usage) (s : Symbol) : Prop :=
  match s.kind with
  | .vertexAttribute => s.name ∈ u.attributes
  | .varying => s.name ∈ u.varyings
  | .output => s.name ∈ u.outputs ∨ u.outputs.toList = [] ∧ s.name = "color"
  | .resource => s.name ∈ u.uniforms ∨ s.name ∈ u.uniformStructs ∨ s.name ∈ u.samplers
  | .samplerObject => ∃ n ∈ u.samplers, s.name = n ++ "_sampler"
  | .constant => ∃ i ∈ u.constants, s.name = (Handle.constant i).text
  | .function => s.name ∈ u.helpers
  | .builtin => True

theorem wants_of_mem_names (hu : u.Declared d) {s : Symbol} (hs : s.name ∈ u.names s.kind) :
    u.Wants s := by
  obtain ⟨k, n⟩ := s
  cases k with
  | resource =>
      obtain ⟨h, hh, rfl⟩ := List.mem_map.mp hs
      rcases (hu.bindings h).mp hh with ⟨n, hn, rfl⟩ | ⟨n, hn, rfl⟩ | ⟨n, hn, rfl⟩
      · exact .inl hn
      · exact .inr (.inl hn)
      · exact .inr (.inr hn)
  | constant =>
      obtain ⟨i, hi, rfl⟩ := List.mem_map.mp hs
      exact ⟨i, hi, rfl⟩
  | vertexAttribute => exact hs
  | varying => exact hs
  | function => exact hs
  | _ => cases hs

theorem nodup_names (hd : d.NamesApart) (hu : u.Declared d) (k : SymbolKind) :
    (u.names k).Nodup := by
  cases k with
  | vertexAttribute => exact u.attributes.nodup
  | varying => exact u.varyings.nodup
  | resource =>
      refine List.Nodup.map_on ?_ u.bindings.nodup
      intro a ha b hb
      exact (Layout.bound_of_declared hu ha).eq_of_text hd (Layout.bound_of_declared hu hb)
  | constant => exact u.constants.nodup.map Handle.text_constant_injective
  | function => exact u.helpers.nodup
  | _ => exact List.nodup_nil

/-- What a mention needs declared is used. -/
theorem mem_names_of_holds (hu : u.Declared d) {a : Code.Mention}
    (ha : ∀ ev ∈ a.event?, u.Holds ev) {s : Symbol}
    (hs : s ∈ a.symbol? (fun _ ↦ none) fun _ ↦ none) : s.name ∈ u.names s.kind := by
  cases a with
  | handle x =>
      have hx : u.Holds (.read x) := ha _ rfl
      cases x with
      | vertexAttribute n =>
          cases hs
          exact hx
      | varying n =>
          cases hs
          exact hx
      | uniform n =>
          cases hs
          exact List.mem_map_of_mem ((hu.bindings (.uniform n)).mpr (.inl ⟨n, hx, rfl⟩))
      | uniformStruct n =>
          cases hs
          exact List.mem_map_of_mem
            ((hu.bindings (.uniformStruct n)).mpr (.inr (.inl ⟨n, hx, rfl⟩)))
      | sampler n =>
          cases hs
          exact List.mem_map_of_mem ((hu.bindings (.sampler n)).mpr (.inr (.inr ⟨n, hx, rfl⟩)))
      | constant i =>
          cases hs
          exact List.mem_map_of_mem hx
      | _ => cases hs
  | helper n =>
      cases hs
      exact ha _ rfl
  | own words => cases hs

end Usage

/-- A language declares the symbols of what is used, and further ones for outputs, sampler objects
and built-in values. -/
structure Inventory (u : Usage) (declared extra : List Symbol) : Prop where
  perm : declared.Perm (u.symbols ++ extra)
  further : ∀ s ∈ extra, s.kind = .output ∨ s.kind = .samplerObject ∨ s.kind = .builtin

namespace Inventory

variable {u : Usage} {d : Declarations} {declared extra : List Symbol}

theorem wants (h : Inventory u declared extra) (hu : u.Declared d)
    (hextra : ∀ s ∈ extra, u.Wants s) {s : Symbol} (hs : s ∈ declared) : u.Wants s := by
  rcases List.mem_append.mp (h.perm.mem_iff.mp hs) with hs | hs
  · exact Usage.wants_of_mem_names hu (Usage.mem_symbols.mp hs)
  · exact hextra s hs

theorem count_extra (h : Inventory u declared extra) {s : Symbol} (hs : u.names s.kind = []) :
    declared.count s = extra.count s := by
  rw [h.perm.count_eq, List.count_append, Usage.count_symbols, hs, List.count_nil, Nat.zero_add]

/-- What is used is declared once. -/
theorem count_eq_one (h : Inventory u declared extra) (hd : d.NamesApart) (hu : u.Declared d)
    {builtin : Builtin → Option Symbol} {output : String → Option Symbol}
    (hbuiltin : ∀ b ∈ u.builtins, ∀ s ∈ builtin b, declared.count s = 1)
    (houtput : ∀ n ∈ u.outputs, ∀ s ∈ output n, declared.count s = 1) {a : Code.Mention}
    (ha : ∀ ev ∈ a.event?, u.Holds ev) {s : Symbol} (hs : s ∈ a.symbol? builtin output) :
    declared.count s = 1 := by
  -- Built-in values and outputs are the languages' own; no other kind is among the further symbols.
  have hcommon : s ∈ a.symbol? (fun _ ↦ none) (fun _ ↦ none) → declared.count s = 1 := by
    intro hs
    have hname := Usage.mem_names_of_holds hu ha hs
    have hextra : extra.count s = 0 := by
      apply List.count_eq_zero_of_not_mem
      intro hmem
      rcases h.further s hmem with hkind | hkind | hkind <;> rw [hkind] at hname <;> cases hname
    rw [h.perm.count_eq, List.count_append, hextra, Usage.count_symbols]
    exact List.count_eq_one_of_mem (Usage.nodup_names hd hu s.kind) hname
  cases a with
  | handle x =>
      have hx : u.Holds (.read x) := ha _ rfl
      cases x with
      | builtin b => exact hbuiltin b hx s hs
      | output n => exact houtput n hx s hs
      | _ => exact hcommon hs
  | _ => exact hcommon hs

end Inventory

/-! ### Code that is emitted -/

namespace Code.Target

/-- An expression of recorded code of which everything is used. -/
def Writes (t : Target) (u : Usage) (x : Expr) : Prop :=
  ∃ e, t.expr e = .ok x ∧ ∀ ev ∈ Usage.Event.ofExpr e, u.Holds ev

variable {t : Target} {d : Declarations} {stage : Stage} {body : Block} {u : Usage}

theorem names_constants {is : List Nat} {cs : List Constant}
    (h : is.mapM (fun i ↦ do t.constant i (← d.constant i)) = .ok cs) :
    cs.map Constant.name = is.map fun i ↦ (Handle.constant i).text := by
  refine map_mapM h ?_
  intro i _ c hc
  obtain ⟨value, -, hc⟩ := bind_eq_ok.mp hc
  exact (origin_constant hc).1

theorem writes_constants (hu : Usage.of d stage body = .ok u) {cs : List Constant}
    (h : u.constants.toList.mapM (fun i ↦ do t.constant i (← d.constant i)) = .ok cs) :
    cs.map Constant.name = u.constants.toList.map (fun i ↦ (Handle.constant i).text) ∧
      ∀ c ∈ cs, t.Writes u c.value := by
  constructor
  · exact names_constants h
  · intro c hc
    obtain ⟨i, hi, hc⟩ := (mem_mapM h).mp hc
    obtain ⟨value, hvalue, hc⟩ := bind_eq_ok.mp hc
    exact ⟨value.expr, (origin_constant hc).2, fun ev ↦
      Usage.holds_constant hu hi (Declarations.constant_eq_ok.mp hvalue)⟩

theorem name_function {name : String} {helper : Helper} {f : Function}
    (h : t.function name helper = .ok f) : f.name = name := by
  obtain ⟨result, -, h⟩ := bind_eq_ok.mp h
  obtain ⟨params, -, h⟩ := bind_eq_ok.mp h
  obtain ⟨code, -, h⟩ := bind_eq_ok.mp h
  obtain ⟨last, -, h⟩ := bind_eq_ok.mp h
  cases h
  rfl

theorem names_functions {names : List String} {fs : List Function}
    (h : names.mapM (fun name ↦ do t.function name (← d.helper name)) = .ok fs) :
    fs.map Function.name = names := by
  have hnames : fs.map Function.name = names.map id := by
    refine map_mapM h ?_
    intro name _ f hf
    obtain ⟨helper, -, hf⟩ := bind_eq_ok.mp hf
    exact name_function hf
  rw [hnames, List.map_id]

theorem writes_function (hu : Usage.of d stage body = .ok u)
    (hleave : ∀ v, ∀ x ∈ exprsAll (t.leave v), v = some x) {name : String} {helper : Helper}
    (hname : name ∈ u.helpers) (hhelper : d.helpers.get? name = some helper) {f : Function}
    (h : t.function name helper = .ok f) {x : Expr} (hx : x ∈ exprsAll f.body) : t.Writes u x := by
  obtain ⟨e, he, hex⟩ := origin_function hleave h hx
  exact ⟨e, hex, fun ev hev ↦
    Usage.holds_helper hu hname hhelper (Usage.Event.mem_ofHelper he hev)⟩

theorem writes_functions (hu : Usage.of d stage body = .ok u)
    (hleave : ∀ v, ∀ x ∈ exprsAll (t.leave v), v = some x) {fs : List Function}
    (h : u.helpers.toList.mapM (fun name ↦ do t.function name (← d.helper name)) = .ok fs) :
    fs.map Function.name = u.helpers.toList ∧
      ∀ f ∈ fs, ∀ x ∈ exprsAll f.body, t.Writes u x := by
  constructor
  · exact names_functions h
  · intro f hf
    obtain ⟨name, hname, hf⟩ := (mem_mapM h).mp hf
    obtain ⟨helper, hhelper, hf⟩ := bind_eq_ok.mp hf
    intro x hx
    exact writes_function hu hleave hname (Declarations.find_eq_ok.mp hhelper) hf hx

/-- The expressions of an entry point are those of its body, but for what leaves it. -/
theorem writes_body (hu : Usage.of d stage body = .ok u) {own : Bool → Expr → Prop}
    (hleave : ∀ v, ∀ x ∈ exprsAll (t.leave v), v = some x ∨ own v.isSome x)
    {code : List Statement} (h : t.block body = .ok code) {x : Expr} (hx : x ∈ exprsAll code) :
    t.Writes u x ∨ ∃ v, .leave v ∈ Block.within body ∧ own v.isSome x := by
  rcases origin_block hleave body h x hx with ⟨e, he, hex⟩ | hown
  · exact .inl ⟨e, hex, fun ev hev ↦
      Usage.holds_body hu (Usage.Event.mem_ofBlock body he hev)⟩
  · exact .inr hown

end Code.Target

/-! ### Accounts of expressions -/

/-- The built-in value that takes what an entry point returns. -/
def Stage.result : Stage → Builtin
  | .vertex => .position
  | .fragment => .fragColor

/-- The text of an expression consists of mentions, and what they stand for is used and declared
once. -/
structure Accounts (u : Usage) (declared : List Symbol) (symbol? : Code.Mention → Option Symbol)
    (spell : Handle → List String) (ms : List Code.Mention) (x : Code.Expr) : Prop where
  words : x.words = Code.spelled spell ms
  used : ∀ a ∈ ms, ∀ ev ∈ a.event?, u.Holds ev
  once : ∀ a ∈ ms, ∀ s ∈ symbol? a, declared.count s = 1

theorem Accounts.declared {u : Usage} {declared : List Symbol}
    {symbol? : Code.Mention → Option Symbol} {spell : Handle → List String}
    {ms : List Code.Mention} {x : Code.Expr} (h : Accounts u declared symbol? spell ms x)
    {a : Code.Mention} (ha : a ∈ ms) {s : Symbol} (hs : s ∈ symbol? a) : s ∈ declared :=
  List.count_pos_iff.mp (h.once a ha s hs ▸ Nat.one_pos)

end Shading
