import Shading.Proofs.Emission.Closed

/-!
# Texts of entry points

The text of a shader or of a module is made of the texts of its items, one below the other, with
empty lines between its parts.

Main statement: the text of an entry point has the declarations of its shader or module in their
order, and each name that one of them declares stands in it as a word.
-/

namespace Shading

/-! ### Texts one below the other -/

/-- Texts one below the other.  There may be an empty line between two of them, and nothing else. -/
inductive Stacked : List String → String → Prop
  | nil : Stacked [] ""
  | cons {t text : String} {ts : List String} (h : Stacked ts text) : Stacked (t :: ts) (t ++ text)
  | gap {t text : String} {ts : List String} (hts : ts ≠ []) (h : Stacked ts text) :
      Stacked (t :: ts) (t ++ "\n" ++ text)

theorem stacked_join (ts : List String) : Stacked ts (String.join ts) := by
  induction ts with
  | nil => exact .nil
  | cons t ts ih =>
      rw [String.join_cons]
      exact .cons ih

theorem Stacked.append {ts us : List String} {text more : String} (h : Stacked ts text)
    (hts : ts ≠ []) (h' : Stacked us more) (hus : us ≠ []) :
    Stacked (ts ++ us) (text ++ "\n" ++ more) := by
  induction h with
  | nil => exact (hts rfl).elim
  | @cons t text ts h ih =>
      by_cases hrest : ts = []
      · subst hrest
        cases h
        rw [String.append_empty]
        exact .gap hus h'
      · have hcons : Stacked (t :: (ts ++ us)) (t ++ (text ++ "\n" ++ more)) := .cons (ih hrest)
        rwa [← String.append_assoc, ← String.append_assoc] at hcons
  | @gap t text ts hrest h ih =>
      have hgap : Stacked (t :: (ts ++ us)) (t ++ "\n" ++ (text ++ "\n" ++ more)) :=
        .gap (by simp [hrest]) (ih hrest)
      rwa [← String.append_assoc, ← String.append_assoc] at hgap

/-- Parts that have something in them. -/
theorem stacked_intercalate (parts : List (List String)) (h : ∀ part ∈ parts, part ≠ []) :
    Stacked parts.flatten ("\n".intercalate (parts.map String.join)) := by
  induction parts with
  | nil => exact .nil
  | cons part parts ih =>
      have hpart := h part List.mem_cons_self
      have hrest := ih fun q hq ↦ h q (List.mem_cons_of_mem _ hq)
      cases parts with
      | nil =>
          rw [List.map_singleton, String.intercalate_singleton, List.flatten_singleton]
          exact stacked_join part
      | cons next parts =>
          have hnext := h next (List.mem_cons_of_mem _ List.mem_cons_self)
          rw [List.map_cons, String.intercalate_cons_of_ne_nil (by simp), List.flatten_cons]
          exact (stacked_join part).append hpart hrest (by simp [hnext])

theorem stacked_partsText (parts : List (List String)) :
    Stacked parts.flatten (Code.partsText parts) := by
  have hstacked := stacked_intercalate (parts.filter (!·.isEmpty)) (by simp)
  rw [List.flatten_filter_not_isEmpty] at hstacked
  exact hstacked

theorem Stacked.exists_append {ts : List String} {text : String} (h : Stacked ts text) {t : String}
    (ht : t ∈ ts) : ∃ front back, text = front ++ t ++ back := by
  induction h with
  | nil => cases ht
  | @cons u text ts h ih =>
      rcases List.mem_cons.mp ht with rfl | ht
      · exact ⟨"", text, by rw [String.empty_append]⟩
      · obtain ⟨front, back, rfl⟩ := ih ht
        exact ⟨u ++ front, back, by simp only [String.append_assoc]⟩
  | @gap u text ts hne h ih =>
      rcases List.mem_cons.mp ht with rfl | ht
      · exact ⟨"", "\n" ++ text, by rw [String.empty_append, String.append_assoc]⟩
      · obtain ⟨front, back, rfl⟩ := ih ht
        exact ⟨u ++ "\n" ++ front, back, by simp only [String.append_assoc]⟩

/-! ### Names in a text -/

/-- A name may follow. -/
def opensName (front : String) : Bool :=
  front.toList.getLast?.any [' ', '('].contains

/-- A name may be over. -/
def closesName (back : String) : Bool :=
  back.toList.head?.any [' ', ';', ':', '(', '['].contains

/-- A name stands in a text as a word that is declared. -/
def Introduces (text name : String) : Prop :=
  ∃ front back, text = front ++ name ++ back ∧ opensName front = true ∧ closesName back = true

theorem opensName_append (more : String) {front : String} (h : opensName front = true) :
    opensName (more ++ front) = true := by
  unfold opensName at h ⊢
  rw [String.toList_append, List.getLast?_append]
  cases hlast : front.toList.getLast? with
  | none => simp [hlast] at h
  | some c => simpa [hlast] using h

theorem closesName_append {back : String} (h : closesName back = true) (more : String) :
    closesName (back ++ more) = true := by
  unfold closesName at h ⊢
  rw [String.toList_append, List.head?_append]
  cases hhead : back.toList.head? with
  | none => simp [hhead] at h
  | some c => simpa [hhead] using h

section Introduces

variable {text name : String}

theorem introduces {front back : String} (name : String) (hfront : opensName front = true)
    (hback : closesName back = true) : Introduces (front ++ name ++ back) name :=
  ⟨front, back, rfl, hfront, hback⟩

theorem Introduces.append (h : Introduces text name) (more : String) :
    Introduces (text ++ more) name := by
  obtain ⟨front, back, rfl, hfront, hback⟩ := h
  exact ⟨front, back ++ more, String.append_assoc, hfront, closesName_append hback more⟩

theorem Introduces.prepend (h : Introduces text name) (more : String) :
    Introduces (more ++ text) name := by
  obtain ⟨front, back, rfl, hfront, hback⟩ := h
  refine ⟨more ++ front, back, ?_, opensName_append more hfront, hback⟩
  simp only [String.append_assoc]

theorem Introduces.stacked {t : String} {ts : List String} (h : Introduces t name) (ht : t ∈ ts)
    (hstacked : Stacked ts text) : Introduces text name := by
  obtain ⟨front, back, rfl⟩ := hstacked.exists_append ht
  exact (h.prepend front).append back

end Introduces

/-- A text has some items one below the other, and the names that each of them declares. -/
structure Lists {ι : Type} (itemText : ι → String) (names : ι → List String) (items : List ι)
    (text : String) : Prop where
  stacked : Stacked (items.map itemText) text
  introduced : ∀ x ∈ items, ∀ n ∈ names x, Introduces (itemText x) n

theorem Lists.introduces {ι : Type} {itemText : ι → String} {names : ι → List String}
    {items : List ι} {text : String} (h : Lists itemText names items text) {x : ι} (hx : x ∈ items)
    {n : String} (hn : n ∈ names x) : Introduces text n :=
  (h.introduced x hx n hn).stacked (List.mem_map_of_mem hx) h.stacked

theorem Code.Statement.textAll_eq_join (d : Dialect) (level : Nat) (ss : List Statement) :
    textAll d level ss = String.join (ss.map (text d level)) := by
  induction ss with
  | nil => rfl
  | cons s ss ih => rw [textAll, ih, List.map_cons, String.join_cons]

/-! ### Shaders -/

namespace Glsl

/-- The names that a declaration outside of functions introduces. -/
def Global.names : Global → List String
  | .input _ _ n => [n]
  | .varying _ _ n => [n]
  | .output _ _ n => [n]
  | .blockLayout => []
  | .struct n fields => n :: fields.map (·.2)
  | .uniform _ n => [n]
  | .block n fields i => n :: i :: fields.map (·.2)

def Item.names : Item → List String
  | .directive _ => []
  | .global g => g.names
  | .constant c => [c.name]
  | .function f => [f.name]
  | .main _ => ["main"]

/-- Array dimensions may come between a name and what follows its declaration. -/
theorem closesName_dimsText (dims : List Nat) {back : String} (h : closesName back = true) :
    closesName (dimsText dims ++ back) = true := by
  cases dims with
  | nil => exact h
  | cons n dims =>
      rw [dimsText, List.map_cons, String.join_cons]
      simp only [String.append_assoc]
      exact closesName_append (by decide) _

theorem introduces_declText (front : String) (t : Code.TypeName) (n : String) {back : String}
    (h : closesName back = true) : Introduces (front ++ declText t n ++ back) n := by
  have hname : Introduces (front ++ (baseText t.base ++ " ") ++ n ++ (dimsText t.dims ++ back)) n :=
    introduces n (opensName_append _ (opensName_append _ (by decide))) (closesName_dimsText _ h)
  simpa only [declText, String.append_assoc] using hname

theorem introduces_fieldsText {fields : List (Code.TypeName × String)} {n : String}
    (h : n ∈ fields.map (·.2)) : Introduces (fieldsText fields) n := by
  obtain ⟨⟨t, n⟩, hfield, rfl⟩ := List.mem_map.mp h
  have hname : Introduces (Code.indent 1 ++ declText t n ++ ";\n") n :=
    introduces_declText _ t n (by decide)
  exact hname.stacked (List.mem_map.mpr ⟨(t, n), hfield, rfl⟩) (stacked_join _)

theorem Global.introduces_text (g : Global) {n : String} (h : n ∈ g.names) :
    Introduces g.text n := by
  cases g with
  | input location t n =>
      cases List.mem_singleton.mp h
      cases location with
      | none => exact introduces_declText _ t n (by decide)
      | some l => exact introduces_declText _ t n (by decide)
  | varying qualifiers t n =>
      cases List.mem_singleton.mp h
      cases qualifiers with
      | none => exact introduces_declText _ t n (by decide)
      | some q => exact introduces_declText _ t n (by decide)
  | output l t n =>
      cases List.mem_singleton.mp h
      exact introduces_declText _ t n (by decide)
  | blockLayout => cases h
  | struct name fields =>
      rcases List.mem_cons.mp h with rfl | h
      · exact ((introduces n (by decide) (by decide)).append _).append _
      · exact ((introduces_fieldsText h).prepend _).append _
  | uniform t n =>
      cases List.mem_singleton.mp h
      exact introduces_declText _ t n (by decide)
  | block name fields i =>
      rcases List.mem_cons.mp h with rfl | h
      · exact ((((introduces n (by decide) (by decide)).append _).append _).append _).append _
      · rcases List.mem_cons.mp h with rfl | h
        · exact introduces n (opensName_append _ (by decide)) (by decide)
        · exact ((((introduces_fieldsText h).prepend _).append _).append _).append _

theorem introduces_functionText (f : Code.Function) : Introduces (functionText f) f.name := by
  unfold functionText
  refine (((((introduces f.name ?_ ?_).append _).append _).append _).append _)
  · exact opensName_append _ (by decide)
  · decide

theorem Item.introduces_text (x : Item) {n : String} (h : n ∈ x.names) : Introduces x.text n := by
  cases x with
  | directive d => cases h
  | global g => exact g.introduces_text h
  | constant c =>
      cases List.mem_singleton.mp h
      exact ((introduces_declText "const " c.type c.name (by decide)).append _).append _
  | function f =>
      cases List.mem_singleton.mp h
      exact introduces_functionText f
  | main body =>
      obtain rfl : n = "main" := List.mem_singleton.mp h
      exact introduces_functionText ⟨"main", [], none, body⟩

theorem lists_text (s : Shader) : Lists Item.text Item.names s.items s.text where
  stacked := by
    rw [Shader.items, List.map_flatten]
    exact stacked_partsText _
  introduced x _ _ := x.introduces_text

theorem Item.mem_names {x : Item} {a : Symbol} (h : x.symbol? = some a) : a.name ∈ x.names := by
  cases x with
  | global g => cases g <;> cases h <;> simp [names, Global.names]
  | directive d => cases h
  | main body => cases h
  | _ =>
      cases h
      exact List.mem_singleton_self _

/-- Whatever a shader declares is introduced by its text. -/
theorem introduces_of_symbols {s : Shader} {a : Symbol} (h : a ∈ s.symbols) :
    Introduces s.text a.name := by
  obtain ⟨x, hx, ha⟩ := List.mem_filterMap.mp h
  exact (lists_text s).introduces hx (Item.mem_names ha)

end Glsl

/-! ### Modules -/

namespace Wgsl

def Struct.names (s : Struct) : List String :=
  s.name :: s.fields.map (·.name)

/-- The names that an item introduces.  An entry function has its parameters and its variables. -/
def Item.names : Item → List String
  | .struct s => s.names
  | .resource r => [r.name]
  | .constant c => [c.name]
  | .function f => [f.name]
  | .interface s => s.names
  | .entry f => f.name :: (f.params.map (·.name) ++ declaredNames f.body)

theorem introduces_declText {front : String} (n : String) (t : Code.TypeName)
    (h : opensName front = true) : Introduces (front ++ declText n t) n := by
  have hname : Introduces (front ++ n ++ (": " ++ typeText t)) n :=
    introduces n h (closesName_append (by decide) _)
  simpa only [declText, String.append_assoc] using hname

theorem opensName_attributesText {front : String} (h : opensName front = true)
    (attributes : List Attribute) : opensName (front ++ attributesText attributes) = true := by
  unfold attributesText
  induction attributes generalizing front with
  | nil => simpa using h
  | cons a attributes ih =>
      have hblank : opensName (front ++ (a.text ++ " ")) = true :=
        opensName_append _ (opensName_append _ (by decide))
      rw [List.map_cons, String.join_cons, ← String.append_assoc]
      exact ih hblank

theorem Member.introduces_text {front : String} (a : Member) (h : opensName front = true) :
    Introduces (front ++ a.text) a.name := by
  rw [text, ← String.append_assoc]
  exact introduces_declText a.name a.type (opensName_attributesText h a.attributes)

theorem introduces_params {front : String} {params : List Member} (h : opensName front = true)
    {n : String} (hn : n ∈ params.map (·.name)) :
    Introduces (front ++ ", ".intercalate (params.map Member.text)) n := by
  induction params generalizing front with
  | nil => cases hn
  | cons a params ih =>
      by_cases hrest : params = []
      · subst hrest
        obtain rfl : n = a.name := List.mem_singleton.mp hn
        exact a.introduces_text h
      · rw [List.map_cons, String.intercalate_cons_of_ne_nil (by simpa using hrest),
          ← String.append_assoc, ← String.append_assoc]
        rcases List.mem_cons.mp hn with rfl | hn
        · exact ((a.introduces_text h).append _).append _
        · exact ih (opensName_append _ (by decide)) hn

theorem Struct.introduces_text (s : Struct) {n : String} (h : n ∈ s.names) :
    Introduces s.text n := by
  rcases List.mem_cons.mp h with rfl | h
  · exact ((introduces s.name (by decide) (by decide)).append _).append _
  · obtain ⟨a, ha, rfl⟩ := List.mem_map.mp h
    have hfield : Introduces (Code.indent 1 ++ a.text ++ ",\n") a.name :=
      (a.introduces_text (by decide)).append _
    have hmem : Code.indent 1 ++ a.text ++ ",\n" ∈
        s.fields.map fun m ↦ Code.indent 1 ++ m.text ++ ",\n" := List.mem_map.mpr ⟨a, ha, rfl⟩
    exact ((hfield.stacked hmem (stacked_join _)).prepend _).append _

theorem introduces_declaredNames {ss : List Code.Statement} {n : String}
    (h : n ∈ declaredNames ss) : Introduces (Code.Statement.textAll dialect 1 ss) n := by
  obtain ⟨s, hs, hname⟩ := List.mem_filterMap.mp h
  have hstatement : Introduces (Code.Statement.text dialect 1 s) n := by
    cases s <;> cases hname
    next type init =>
      have hvariable : Introduces (Code.indent 1 ++ ("var " ++ declText n type)) n :=
        (introduces_declText n type (by decide)).prepend _
      exact (hvariable.append _).append _
  rw [Code.Statement.textAll_eq_join]
  exact hstatement.stacked (List.mem_map_of_mem hs) (stacked_join _)

theorem EntryFunction.introduces_text (f : EntryFunction) {n : String}
    (h : n ∈ (Item.entry f).names) : Introduces f.text n := by
  unfold text
  rcases List.mem_cons.mp h with rfl | h
  · have hname : Introduces ("@" ++ f.stage.text ++ "\nfn " ++ f.name ++ "(") f.name :=
      introduces f.name (opensName_append _ (by decide)) (by decide)
    exact (((((((hname.append _).append _).append _).append _).append _).append _).append _)
  · rcases List.mem_append.mp h with h | h
    · have hparams := introduces_params (opensName_append
        ("@" ++ f.stage.text ++ "\nfn " ++ f.name) (by decide : opensName "(" = true)) h
      exact ((((((hparams.append _).append _).append _).append _).append _).append _)
    · exact ((introduces_declaredNames h).prepend _).append _

theorem Item.introduces_text (x : Item) {n : String} (h : n ∈ x.names) : Introduces x.text n := by
  cases x with
  | struct s => exact s.introduces_text h
  | resource r =>
      obtain rfl : n = r.name := List.mem_singleton.mp h
      refine (introduces_declText r.name r.type ?_).append _
      cases r.isUniform <;> exact opensName_append _ (by decide)
  | constant c =>
      obtain rfl : n = c.name := List.mem_singleton.mp h
      exact (((introduces_declText c.name c.type (by decide)).append _).append _).append _
  | function f =>
      obtain rfl : n = f.name := List.mem_singleton.mp h
      have hname : Introduces ("fn " ++ f.name ++ "(") f.name :=
        introduces f.name (by decide) (by decide)
      exact ((((((hname.append _).append _).append _).append _).append _).append _)
  | interface s => exact s.introduces_text h
  | entry f => exact f.introduces_text h

theorem lists_text (m : Module) : Lists Item.text Item.names m.items m.text where
  stacked := by
    rw [Module.items, List.map_flatten]
    exact stacked_partsText _
  introduced x _ _ := x.introduces_text

theorem mem_names_of_symbols {kind : SymbolKind} {members : List Member} {a : Symbol}
    (h : a ∈ members.filterMap (Member.symbol? kind)) : a.name ∈ members.map (·.name) := by
  obtain ⟨b, hb, ha⟩ := List.mem_filterMap.mp h
  exact List.mem_map.mpr ⟨b, hb, Member.name_of_symbol? ha⟩

theorem Item.mem_names {x : Item} {a : Symbol} (h : a ∈ x.symbols) : a.name ∈ x.names := by
  cases x with
  | struct s => cases h
  | resource r =>
      obtain rfl : a = r.symbol := List.mem_singleton.mp h
      rw [Resource.symbol]
      split <;> exact List.mem_singleton_self _
  | constant c =>
      cases List.mem_singleton.mp h
      exact List.mem_singleton_self _
  | function f =>
      cases List.mem_singleton.mp h
      exact List.mem_singleton_self _
  | interface s => exact List.mem_cons_of_mem _ (mem_names_of_symbols h)
  | entry f => exact List.mem_cons_of_mem _ (List.mem_append_left _ (mem_names_of_symbols h))

/-- Whatever a module declares is introduced by its text. -/
theorem introduces_of_symbols {m : Module} {start : List Code.Statement}
    (hstart : start <+: m.entry.body) {a : Symbol} (h : a ∈ m.symbols start) :
    Introduces m.text a.name := by
  rcases List.mem_append.mp h with h | h
  · obtain ⟨x, hx, ha⟩ := List.mem_flatMap.mp h
    exact (lists_text m).introduces hx (Item.mem_names ha)
  · obtain ⟨n, hn, rfl⟩ := List.mem_map.mp h
    have hentry : Item.entry m.entry ∈ m.items := by
      rw [Module.items_eq]
      exact List.mem_append_right _ List.mem_cons_self
    have hbody : n ∈ declaredNames m.entry.body := (hstart.filterMap _).subset hn
    exact (lists_text m).introduces hentry
      (List.mem_cons_of_mem _ (List.mem_append_right _ hbody))

end Wgsl

/-! ### Entry points -/

/-- The text of an entry point in either language is that of its shader or module, which has all
declarations in their order.  Each of them introduces its names, so whatever the entry point uses is
introduced, and so is whatever else is declared. -/
theorem texts_of_reachable (p : Program) (hp : p.Reachable) (name : String) :
    (∀ o, ((Query.glslText name o).ask p).1 = ((Query.glsl name o).ask p).1.map Glsl.Shader.text ∧
      ∀ s, ((Query.glsl name o).ask p).1 = .ok s → ∃ e, p.emissionOf name none = .ok e ∧
        Lists Glsl.Item.text Glsl.Item.names s.items s.text ∧
        (∀ a ∈ e.usage.symbols, a ∈ s.symbols) ∧ ∀ a ∈ s.symbols, Introduces s.text a.name) ∧
    ∀ o, ((Query.wgslText name o).ask p).1 = ((Query.wgsl name o).ask p).1.map Wgsl.Module.text ∧
      ∀ m, ((Query.wgsl name o).ask p).1 = .ok m → ∃ e, p.emissionOf name o.peer = .ok e ∧
        Lists Wgsl.Item.text Wgsl.Item.names m.items m.text ∧
        (∀ a ∈ e.usage.symbols, a ∈ m.symbols (Wgsl.locals e (Wgsl.entryFlow e o))) ∧
        ∀ a ∈ m.symbols (Wgsl.locals e (Wgsl.entryFlow e o)), Introduces m.text a.name := by
  constructor
  · intro o
    refine ⟨Query.ask_glslText name o p, fun s hs ↦ ?_⟩
    rw [(Query.answers_glsl name o).ask_eq] at hs
    obtain ⟨e, he, hemit⟩ := bind_eq_ok.mp hs
    obtain ⟨hdecls, -, -, -, hu⟩ := hp.emission he
    rw [← hdecls] at hu
    have hinventory := Glsl.inventory_of_parts (Glsl.parts_of_emit hemit) hu
    exact ⟨e, he, Glsl.lists_text s,
      fun a ha ↦ hinventory.perm.mem_iff.mpr (List.mem_append_left _ ha),
      fun a ↦ Glsl.introduces_of_symbols⟩
  · intro o
    refine ⟨Query.ask_wgslText name o p, fun m hm ↦ ?_⟩
    rw [(Query.answers_wgsl name o).ask_eq] at hm
    obtain ⟨e, he, hemit⟩ := bind_eq_ok.mp hm
    obtain ⟨hdecls, -, -, -, hu⟩ := hp.emission he
    rw [← hdecls] at hu
    have hsupplied := hp.supplied he
    have hinventory := Wgsl.inventory_of_emit hemit hu hsupplied.attributes
    have hclosed := Wgsl.closed_of_emit hemit (hdecls ▸ hp.sound.apart) hu hsupplied
    exact ⟨e, he, Wgsl.lists_text m,
      fun a ha ↦ hinventory.perm.mem_iff.mpr (List.mem_append_left _ ha),
      fun a ↦ Wgsl.introduces_of_symbols hclosed.start⟩

end Shading
