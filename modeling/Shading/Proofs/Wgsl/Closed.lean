import Shading.Proofs.Emission.Inventory
import Shading.Proofs.Wgsl.Exits
import Shading.Proofs.Wgsl.Linking
import Shading.Proofs.Wgsl.Mentions

/-!
# Closed modules

What a module declares: resources, constants and functions at its top, stage inputs and outputs as
fields and parameters, and variables at the start of its entry function.  Everything that a module
mentions is used by the entry point and declared once.
-/

namespace Shading.Wgsl

open Code (Mention)

/-! ### Declarations -/

def Member.isBuiltin (a : Member) : Bool :=
  a.attributes.any fun
    | .builtin _ => true
    | _ => false

/-- What a member declares, where those with a location are of a given kind. -/
def Member.symbol? (located : SymbolKind) (a : Member) : Option Symbol :=
  if a.location?.isSome then some ⟨located, a.name⟩
  else if a.isBuiltin then some ⟨.builtin, a.name⟩
  else none

theorem Member.name_of_symbol? {located : SymbolKind} {a : Member} {s : Symbol}
    (h : a.symbol? located = some s) : a.name = s.name := by
  unfold Member.symbol? at h
  split at h
  · cases h
    rfl
  · split at h <;> cases h
    rfl

/-- The fields of an interface struct are varyings or outputs, or built-in values. -/
def Struct.symbols (s : Struct) : List Symbol :=
  s.fields.filterMap (Member.symbol? (if s.name = fragmentOut then .output else .varying))

def Resource.symbol (r : Resource) : Symbol :=
  if r.kind = .samplerObject then ⟨.samplerObject, r.name⟩ else ⟨.resource, r.name⟩

def declaredNames (ss : List Code.Statement) : List String :=
  ss.filterMap fun
    | .declare _ name _ => some name
    | _ => none

def Item.symbols : Item → List Symbol
  | .struct _ => []
  | .resource r => [r.symbol]
  | .constant c => [⟨.constant, c.name⟩]
  | .function f => [⟨.function, f.name⟩]
  | .interface s => s.symbols
  | .entry f => f.params.filterMap (Member.symbol? .vertexAttribute)

namespace Module

/-- What a module declares, in the order of its text, with the variables at the start of its entry
function. -/
def symbols (m : Module) (start : List Code.Statement) : List Symbol :=
  m.items.flatMap Item.symbols ++ (declaredNames start).map (.mk .builtin)

theorem items_eq (m : Module) : m.items =
    m.structs.map .struct ++ m.resources.map .resource ++ m.constants.map .constant ++
      m.functions.map .function ++ m.interface.map .interface ++ [.entry m.entry] := by
  simp [items, parts, flatten_map_singleton]

theorem symbols_eq (m : Module) (start : List Code.Statement) : m.symbols start =
    m.resources.map Resource.symbol ++ (m.constants.map (·.name)).map (.mk .constant) ++
      (m.functions.map (·.name)).map (.mk .function) ++ m.interface.flatMap Struct.symbols ++
      m.entry.params.filterMap (Member.symbol? .vertexAttribute) ++
      (declaredNames start).map (.mk .builtin) := by
  have hstructs : (m.structs.flatMap fun _ ↦ []) = ([] : List Symbol) := by simp
  simp only [symbols, items_eq, List.flatMap_append, List.flatMap_map, Item.symbols, hstructs,
    ← List.map_eq_flatMap, List.flatMap_singleton, List.nil_append, List.map_map, Function.comp_def]

def exprs (m : Module) : List Code.Expr :=
  m.constants.map (·.value) ++ m.functions.flatMap (fun f ↦ Code.exprsAll f.body) ++
    Code.exprsAll m.entry.body

end Module

variable {e : Emission} {o : Options} {m : Module}

theorem symbols_varyingFields {fields : List Member} (h : varyingFields e = .ok fields) :
    fields.filterMap (Member.symbol? .varying) =
      (e.varyingsByLocation.map Prod.fst).map (.mk .varying) := by
  have hfield : ∀ (n : String × Nat) a, varyingField e n.1 n.2 = .ok a →
      a.symbol? .varying = some ⟨.varying, n.1⟩ := by
    intro n a ha
    obtain ⟨decl, -, ha⟩ := bind_eq_ok.mp ha
    cases ha
    rfl
  rw [filterMap_mapM h fun n _ ↦ hfield n, List.filterMap_eq_map', List.map_map]
  rfl

theorem symbols_outputFields {fields : List Member} (h : outputFields e = .ok fields) :
    fields.filterMap (Member.symbol? .output) = e.outputNames.map (.mk .output) := by
  have hfield : ∀ (n : String × Nat) a, outputField e n.1 n.2 = .ok a →
      a.symbol? .output = some ⟨.output, n.1⟩ := by
    intro n a ha
    obtain ⟨decl, -, ha⟩ := bind_eq_ok.mp ha
    cases ha
    rfl
  unfold outputFields at h
  split at h
  · next hnone =>
    cases h
    rw [e.outputNames_of_eq_nil hnone]
    rfl
  · next hsome =>
    rw [filterMap_mapM h fun n _ ↦ hfield n, List.filterMap_eq_map',
      e.outputNames_of_ne_nil hsome, List.map_map]
    rfl

def takenBuiltins (e : Emission) : List String :=
  (if e.usesBuiltin .fragCoord then ["frag_coord"] else []) ++
    (if e.usesBuiltin .frontFacing then ["front_facing"] else [])

theorem symbols_fragmentBuiltins (kind : SymbolKind) :
    (fragmentBuiltins e).filterMap (Member.symbol? kind) =
      (takenBuiltins e).map (.mk .builtin) := by
  unfold fragmentBuiltins takenBuiltins
  cases e.usesBuiltin .fragCoord <;> cases e.usesBuiltin .frontFacing <;> rfl

/-- The names that an entry function and its structs declare.  Its variables for stage outputs count
as built-in values. -/
def entryNames (e : Emission) : Flow → SymbolKind → List String
  | .vertex .., .vertexAttribute => (Layout.sortByLocation e.layout.attributes).map Prod.fst
  | .vertex output _, .varying => if output then e.varyingsByLocation.map Prod.fst else []
  | .vertex output _, .builtin =>
    (if output then ["position"] else []) ++
      (if e.usesBuiltin .vertexId then ["vertex_index"] else []) ++
      (if e.usesBuiltin .instanceId then ["instance_index"] else []) ++
      (if output then ["output"] else []) ++
      (if e.usesBuiltin .pointSize then ["point_size"] else [])
  | .fragment input _ _, .varying => if input then e.varyingsByLocation.map Prod.fst else []
  | .fragment _ output _, .output => if output then e.outputNames else []
  | .fragment _ output _, .builtin => takenBuiltins e ++ (if output then ["frag_out"] else [])
  | _, _ => []

/-- An entry function declares nothing of what stands at the top of a module. -/
theorem entryNames_of_top (e : Emission) (flow : Flow) :
    entryNames e flow .resource = [] ∧ entryNames e flow .samplerObject = [] ∧
      entryNames e flow .constant = [] ∧ entryNames e flow .function = [] := by
  cases flow <;> exact ⟨rfl, rfl, rfl, rfl⟩

theorem symbols_indexParam (used : Bool) (name : String) :
    (if used then [indexParam name] else []).filterMap (Member.symbol? .vertexAttribute) =
      (if used then [name] else []).map (.mk .builtin) := by
  cases used <;> rfl

theorem symbols_params_vertex {output remap : Bool} {ps : List Member}
    (h : params e (.vertex output remap) = .ok ps) :
    ps.filterMap (Member.symbol? .vertexAttribute) =
      ((Layout.sortByLocation e.layout.attributes).map Prod.fst).map (.mk .vertexAttribute) ++
        (if e.usesBuiltin .vertexId then ["vertex_index"] else []).map (.mk .builtin) ++
        (if e.usesBuiltin .instanceId then ["instance_index"] else []).map (.mk .builtin) := by
  have hparam : ∀ (n : String × Nat) a, attributeParam e n.1 n.2 = .ok a →
      a.symbol? .vertexAttribute = some ⟨.vertexAttribute, n.1⟩ := by
    intro n a ha
    obtain ⟨decl, -, ha⟩ := bind_eq_ok.mp ha
    cases ha
    rfl
  obtain ⟨attributes, hattributes, h⟩ := bind_eq_ok.mp h
  cases h
  rw [List.filterMap_append, List.filterMap_append, symbols_indexParam, symbols_indexParam,
    filterMap_mapM hattributes fun n _ ↦ hparam n, List.filterMap_eq_map', List.map_map]
  rfl

theorem symbols_interface_vertex {output remap : Bool} {ss : List Struct}
    (h : interface e (.vertex output remap) = .ok ss) : ss.flatMap Struct.symbols =
      (if output then ["position"] else []).map (.mk .builtin) ++
        (if output then e.varyingsByLocation.map Prod.fst else []).map (.mk .varying) := by
  cases output with
  | false =>
      cases h
      rfl
  | true =>
      obtain ⟨fields, hfields, h⟩ := bind_eq_ok.mp h
      cases h
      have hsymbols : (⟨vertexOutput, positionField :: fields⟩ : Struct).symbols =
          ⟨.builtin, "position"⟩ :: fields.filterMap (Member.symbol? .varying) := rfl
      rw [List.flatMap_singleton, hsymbols, symbols_varyingFields hfields]
      rfl

theorem symbols_params_fragment {input output : Bool} {color : String} {ps : List Member}
    (h : params e (.fragment input output color) = .ok ps) :
    ps.filterMap (Member.symbol? .vertexAttribute) =
      (if input then [] else takenBuiltins e).map (.mk .builtin) := by
  cases input with
  | false =>
      cases h
      exact symbols_fragmentBuiltins _
  | true =>
      cases h
      rfl

theorem symbols_interface_fragment {input output : Bool} {color : String} {ss : List Struct}
    (h : interface e (.fragment input output color) = .ok ss) : ss.flatMap Struct.symbols =
      (if input then takenBuiltins e else []).map (.mk .builtin) ++
        (if input then e.varyingsByLocation.map Prod.fst else []).map (.mk .varying) ++
        (if output then e.outputNames else []).map (.mk .output) := by
  have hinput : ∀ {fields : List Member}, varyingFields e = .ok fields →
      (⟨fragmentInputName, fragmentBuiltins e ++ fields⟩ : Struct).symbols =
        (takenBuiltins e).map (.mk .builtin) ++
          (e.varyingsByLocation.map Prod.fst).map (.mk .varying) := by
    intro fields hfields
    have hsymbols : (⟨fragmentInputName, fragmentBuiltins e ++ fields⟩ : Struct).symbols =
        (fragmentBuiltins e ++ fields).filterMap (Member.symbol? .varying) := rfl
    rw [hsymbols, List.filterMap_append, symbols_fragmentBuiltins, symbols_varyingFields hfields]
  have houtput : ∀ {fields : List Member}, outputFields e = .ok fields →
      (⟨fragmentOut, fields⟩ : Struct).symbols = e.outputNames.map (.mk .output) := by
    intro fields hfields
    exact symbols_outputFields hfields
  cases input with
  | false =>
      cases output with
      | false =>
          cases h
          rfl
      | true =>
          obtain ⟨inputs, hinputs, h⟩ := bind_eq_ok.mp h
          cases hinputs
          obtain ⟨fields, hfields, h⟩ := bind_eq_ok.mp h
          cases h
          exact (List.append_nil _).trans (houtput hfields)
  | true =>
      obtain ⟨inputs, hinputs, h⟩ := bind_eq_ok.mp h
      cases output with
      | false =>
          cases h
          rw [List.append_nil, List.flatMap_singleton, hinput hinputs]
          exact (List.append_nil _).symm
      | true =>
          obtain ⟨fields, hfields, h⟩ := bind_eq_ok.mp h
          cases hfields
          obtain ⟨results, hresults, h⟩ := bind_eq_ok.mp h
          cases h
          rw [List.flatMap_append, List.flatMap_singleton, List.flatMap_singleton, hinput hinputs,
            houtput hresults]
          rfl

/-- The entry function and its structs declare their names, each in its place. -/
theorem count_entry {flow : Flow} {ss : List Struct} {ps : List Member}
    (hinterface : interface e flow = .ok ss) (hparams : params e flow = .ok ps) (a : Symbol) :
    (ss.flatMap Struct.symbols).count a +
      (ps.filterMap (Member.symbol? .vertexAttribute)).count a +
      ((declaredNames (locals e flow)).map (.mk .builtin)).count a =
    (entryNames e flow a.kind).count a.name := by
  -- All pieces are names of one kind, so that the counts can be taken kind by kind.
  obtain ⟨k, n⟩ := a
  cases flow with
  | vertex output remap =>
      have hlocals : declaredNames (locals e (.vertex output remap)) =
          (if output then ["output"] else []) ++
            (if e.usesBuiltin .pointSize then ["point_size"] else []) := by
        rw [locals]
        cases output <;> cases e.usesBuiltin .pointSize <;> rfl
      simp only [symbols_interface_vertex hinterface, symbols_params_vertex hparams, hlocals,
        List.map_append, List.count_append, count_map_symbol]
      cases k with
      | builtin =>
          simp only [entryNames, List.count_append, reduceCtorEq, if_true, if_false]
          omega
      | _ => simp [entryNames]
  | fragment input output color =>
      have hlocals : declaredNames (locals e (.fragment input output color)) =
          if output then ["frag_out"] else [] := by
        cases output <;> rfl
      simp only [symbols_interface_fragment hinterface, symbols_params_fragment hparams, hlocals,
        List.count_append, count_map_symbol]
      cases k with
      | builtin => cases input <;> simp [entryNames]
      | _ => simp [entryNames]

/-! ### Resources -/

/-- A sampler that has a sampler object. -/
def filtered? (e : Emission) : Handle → Option String
  | .sampler n => if ((e.layout.sampler? n).bind (·.object)).isSome then some n else none
  | _ => none

def objectNames (e : Emission) : List String :=
  (e.usage.bindings.toList.filterMap (filtered? e)).map samplerObject

theorem filtered?_eq_some {h : Handle} {n : String} : filtered? e h = some n ↔
    h = .sampler n ∧ ((e.layout.sampler? n).bind (·.object)).isSome = true := by
  cases h with
  | sampler n' =>
      rw [filtered?]
      split
      · next hobject =>
        constructor
        · intro heq
          cases heq
          exact ⟨rfl, hobject⟩
        · rintro ⟨heq, -⟩
          cases heq
          rfl
      · next hobject =>
        constructor
        · intro heq
          cases heq
        · rintro ⟨heq, hsome⟩
          cases heq
          exact (hobject hsome).elim
  | _ => simp [filtered?]

theorem nodup_objectNames (e : Emission) : (objectNames e).Nodup := by
  refine List.Nodup.map (fun n n' heq ↦ (String.append_left_inj _).mp heq) ?_
  refine List.Nodup.filterMap ?_ e.usage.bindings.nodup
  intro a b n ha hb
  rw [(filtered?_eq_some.mp ha).1, (filtered?_eq_some.mp hb).1]

theorem symbols_bindingResources {h : Handle} (hbound : Layout.Bound e.decls h)
    {rs : List Resource} (hrs : bindingResources e h = .ok rs) :
    rs.map Resource.symbol = ⟨.resource, h.text⟩ ::
      ((filtered? e h).toList.map samplerObject).map (.mk .samplerObject) := by
  cases hbound with
  | uniform =>
      obtain ⟨decl, -, hrs⟩ := bind_eq_ok.mp hrs
      obtain ⟨point, -, hrs⟩ := bind_eq_ok.mp hrs
      cases hrs
      rfl
  | uniformStruct =>
      obtain ⟨decl, -, hrs⟩ := bind_eq_ok.mp hrs
      obtain ⟨point, -, hrs⟩ := bind_eq_ok.mp hrs
      cases hrs
      rfl
  | @sampler n _ =>
      obtain ⟨decl, -, hrs⟩ := bind_eq_ok.mp hrs
      obtain ⟨slots, hslots, hrs⟩ := bind_eq_ok.mp hrs
      cases hrs
      have htexture : (⟨slots.group, slots.texture, false, n, .named (textureType decl.kind)⟩ :
          Resource).symbol = ⟨.resource, n⟩ := by
        rw [Resource.symbol, kind_texture]
        rfl
      rw [List.map_cons, htexture, filtered?, samplerSlots_eq_ok.mp hslots]
      cases hobject : slots.object with
      | none => simp [hobject, Handle.text]
      | some i =>
          simp [hobject, Handle.text]
          rfl

theorem perm_symbols_resources (hu : e.usage.Declared e.decls) {rs : List Resource}
    (h : resources e = .ok rs) : (rs.map Resource.symbol).Perm
      ((e.usage.names .resource).map (.mk .resource) ++
        (objectNames e).map (.mk .samplerObject)) := by
  obtain ⟨lists, hlists, h⟩ := bind_eq_ok.mp h
  cases h
  have hmap : lists.map (List.map Resource.symbol) = e.usage.bindings.toList.map fun h ↦
      [⟨.resource, h.text⟩] ++
        ((filtered? e h).toList.map samplerObject).map (.mk .samplerObject) :=
    map_mapM hlists fun h hh rs hrs ↦
      symbols_bindingResources (Layout.bound_of_declared hu hh) hrs
  rw [List.map_flatten, hmap, ← List.flatMap_def]
  -- A sampler object stands right after its texture; here all of them come last.
  refine (List.flatMap_append_perm _ _ _).symm.trans (.of_eq ?_)
  rw [← List.map_eq_flatMap, objectNames, List.filterMap_eq_flatMap_toList, List.map_flatMap,
    List.map_flatMap, Usage.names, List.map_map]
  rfl

/-! ### Inventory -/

theorem emit_code (h : emit e o = .ok m) :
    constants e (entryFlow e o) = .ok m.constants ∧ functions e = .ok m.functions := by
  obtain ⟨structs, -, h⟩ := bind_eq_ok.mp h
  obtain ⟨resources, -, h⟩ := bind_eq_ok.mp h
  obtain ⟨constants, hconstants, h⟩ := bind_eq_ok.mp h
  obtain ⟨functions, hfunctions, h⟩ := bind_eq_ok.mp h
  obtain ⟨interface, -, h⟩ := bind_eq_ok.mp h
  obtain ⟨entry, -, h⟩ := bind_eq_ok.mp h
  cases h
  exact ⟨hconstants, hfunctions⟩

/-- What a module declares besides what both languages declare alike. -/
def furtherSymbols (e : Emission) (flow : Flow) : List Symbol :=
  (objectNames e).map (.mk .samplerObject) ++ (entryNames e flow .output).map (.mk .output) ++
    (entryNames e flow .builtin).map (.mk .builtin)

theorem leave_helper (stage : Stage) (v : Option Code.Expr) :
    ∀ x ∈ Code.exprsAll ((target (.helper stage)).leave v), v = some x := by
  cases v <;> simp [target, leave, Code.exprsAll, Code.Statement.exprs]

theorem perm_entryNames_attributes (o : Options) (hstage : Usage.StageOnly e.stage e.usage)
    (hattributes : e.stage = .vertex →
      e.layout.attributes.map Prod.fst = e.usage.attributes.toList) :
    (entryNames e (entryFlow e o) .vertexAttribute).Perm e.usage.attributes.toList := by
  cases he : e.stage with
  | vertex =>
      obtain ⟨output, remap, hflow, -⟩ := entryFlow_vertex o he
      rw [hflow, entryNames, ← hattributes he]
      exact (Layout.perm_sortByLocation _).map Prod.fst
  | fragment =>
      obtain ⟨input, output, color, hflow, -⟩ := entryFlow_fragment o he
      rw [hflow, hstage.attributes_eq_nil he]
      exact .refl _

/-- If varyings are used, they go through a struct. -/
theorem perm_entryNames_varyings (e : Emission) (o : Options) :
    (entryNames e (entryFlow e o) .varying).Perm e.usage.varyings.toList := by
  have hcarried : ∀ carried : Bool, (∀ n ∈ e.usage.varyings, carried = true) →
      (if carried then e.varyingsByLocation.map Prod.fst else []).Perm
        e.usage.varyings.toList := by
    intro carried hvaryings
    cases carried with
    | true => exact Layout.perm_names_sortByLocation _ _
    | false =>
        have hnone : e.usage.varyings.toList = [] := by
          apply List.eq_nil_iff_forall_not_mem.mpr
          intro n hn
          cases hvaryings n hn
        rw [hnone]
        exact .refl _
  cases he : e.stage with
  | vertex =>
      obtain ⟨output, remap, hflow, houtput⟩ := entryFlow_vertex o he
      rw [hflow]
      exact hcarried output houtput
  | fragment =>
      obtain ⟨input, output, color, hflow, hinput⟩ := entryFlow_fragment o he
      rw [hflow]
      exact hcarried input hinput

theorem inventory_of_emit (h : emit e o = .ok m)
    (hu : Usage.of e.decls e.stage e.body = .ok e.usage)
    (hattributes : e.stage = .vertex →
      e.layout.attributes.map Prod.fst = e.usage.attributes.toList) :
    Inventory e.usage (m.symbols (locals e (entryFlow e o)))
      (furtherSymbols e (entryFlow e o)) where
  perm := by
    obtain ⟨-, hresources, hinterface, hparams⟩ := emit_eq_ok h
    obtain ⟨hconstants, hfunctions⟩ := emit_code h
    have hconstants := (Code.Target.writes_constants hu hconstants).1
    have hfunctions := (Code.Target.writes_functions hu (leave_helper _) hfunctions).1
    -- The parts of a module come in another order than the kinds of symbols, so occurrences of one
    -- symbol are counted, in each part and then for its kind.
    rw [List.perm_iff_count]
    intro a
    have hresource := (perm_symbols_resources (Usage.declared_of_eq_ok hu) hresources).count_eq a
    have hentry := count_entry hinterface hparams a
    have hattribute := (perm_entryNames_attributes o (Usage.stageOnly_of_eq_ok hu)
      hattributes).count_eq a.name
    have hvarying := (perm_entryNames_varyings e o).count_eq a.name
    simp only [Module.symbols_eq, List.count_append, hresource, hconstants, hfunctions,
      furtherSymbols, Usage.count_symbols]
    obtain ⟨k, n⟩ := a
    simp only [count_map_symbol] at hentry ⊢
    cases k <;>
      simp only [Usage.names, entryNames_of_top, List.count_nil, reduceCtorEq, if_true, if_false]
        at hentry hattribute hvarying ⊢ <;>
      omega
  further a ha := by
    simp only [furtherSymbols, List.mem_append, List.mem_map] at ha
    rcases ha with (⟨n, -, rfl⟩ | ⟨n, -, rfl⟩) | ⟨n, -, rfl⟩
    · exact .inr (.inl rfl)
    · exact .inl rfl
    · exact .inr (.inr rfl)

theorem wants_furtherSymbols (hu : e.usage.Declared e.decls) {flow : Flow} {a : Symbol}
    (ha : a ∈ furtherSymbols e flow) : e.usage.Wants a := by
  simp only [furtherSymbols, List.mem_append, List.mem_map] at ha
  rcases ha with (⟨n, hn, rfl⟩ | ⟨n, hn, rfl⟩) | ⟨n, hn, rfl⟩
  · obtain ⟨sampler, hsampler, rfl⟩ := List.mem_map.mp hn
    obtain ⟨h, hh, hfiltered⟩ := List.mem_filterMap.mp hsampler
    obtain ⟨rfl, -⟩ := filtered?_eq_some.mp hfiltered
    exact ⟨sampler, (mem_bindings_sampler hu).mp hh, rfl⟩
  · cases flow with
    | vertex => cases hn
    | fragment _ output _ =>
        cases output with
        | false => cases hn
        | true => exact e.mem_outputNames hn
  · trivial

/-! ### Closed modules -/

/-- The name under which an entry function has a built-in value. -/
def builtinName : Builtin → String
  | .vertexId => "vertex_index"
  | .instanceId => "instance_index"
  | .position => "position"
  | .pointSize => "point_size"
  | .fragCoord => "frag_coord"
  | .frontFacing => "front_facing"
  | .fragColor => "color"

/-- The colour of a fragment is one of its outputs. -/
def builtinSymbol (e : Emission) : Builtin → Option Symbol
  | .fragColor => some ⟨.output, e.colorName⟩
  | b => some ⟨.builtin, builtinName b⟩

/-- What a module has to declare for a mention. -/
def needs (e : Emission) : Mention → Option Symbol :=
  Mention.symbol? (builtinSymbol e) fun n ↦ some ⟨.output, n⟩

theorem entryFlow_of_position (o : Options) (hstage : e.stage = .vertex)
    (hb : e.usesBuiltin .position = true) : ∃ remap, entryFlow e o = .vertex true remap :=
  ⟨_, by simp [entryFlow, flow, hstage, hb]; rfl⟩

theorem entryFlow_of_written (o : Options) (hstage : e.stage = .fragment)
    (hwritten : e.usage.outputs.toList ≠ [] ∨ e.usesBuiltin .fragColor = true) :
    ∃ input, entryFlow e o = .fragment input true e.colorName := by
  have houtput : (leavesBare e.usage || !e.usage.outputs.isEmpty ||
      e.usesBuiltin .fragColor) = true := by
    rcases hwritten with hne | hb
    · simp [OrderedSet.isEmpty, List.isEmpty_eq_false_iff.mpr hne]
    · simp [hb]
  refine ⟨!e.usage.varyings.isEmpty, ?_⟩
  rw [entryFlow, flow, hstage]
  simp only [houtput, Emission.colorName]

theorem count_ite_singleton (used : Bool) (name n : String) :
    (if used then [name] else []).count n = if used ∧ name = n then 1 else 0 := by
  cases used <;> simp [List.count_singleton]

theorem count_builtin (o : Options) {b : Builtin} (hstage : b.stage = e.stage)
    (hb : e.usesBuiltin b = true) (hcolor : b ≠ .fragColor) :
    (entryNames e (entryFlow e o) .builtin).count (builtinName b) = 1 := by
  cases b with
  | position =>
      obtain ⟨remap, hflow⟩ := entryFlow_of_position o hstage.symm hb
      rw [hflow]
      simp [entryNames, builtinName, count_ite_singleton]
  | vertexId | instanceId | pointSize =>
      obtain ⟨output, remap, hflow, -⟩ := entryFlow_vertex o hstage.symm
      rw [hflow]
      simp [entryNames, builtinName, count_ite_singleton, hb]
  | fragCoord | frontFacing =>
      obtain ⟨input, output, color, hflow, -⟩ := entryFlow_fragment o hstage.symm
      rw [hflow]
      simp [entryNames, takenBuiltins, builtinName, count_ite_singleton, hb]
  | fragColor => exact (hcolor rfl).elim

theorem count_furtherSymbols (flow : Flow) (n : String) :
    (furtherSymbols e flow).count ⟨.output, n⟩ = (entryNames e flow .output).count n ∧
      (furtherSymbols e flow).count ⟨.builtin, n⟩ = (entryNames e flow .builtin).count n ∧
      (furtherSymbols e flow).count ⟨.samplerObject, n⟩ = (objectNames e).count n := by
  simp only [furtherSymbols, List.count_append, count_map_symbol, reduceCtorEq, if_true, if_false,
    Nat.zero_add, Nat.add_zero, and_self]

/-- An entry function that uses an output or a built-in value declares it once. -/
theorem count_builtinSymbol (o : Options) {declared : List Symbol}
    (hinv : Inventory e.usage declared (furtherSymbols e (entryFlow e o))) {b : Builtin}
    (hstage : b.stage = e.stage) (hb : e.usesBuiltin b = true) :
    ∀ a ∈ builtinSymbol e b, declared.count a = 1 := by
  intro a ha
  by_cases hcolor : b = .fragColor
  · subst hcolor
    cases ha
    obtain ⟨input, hflow⟩ := entryFlow_of_written o hstage.symm (.inr hb)
    rw [hinv.count_extra rfl, (count_furtherSymbols _ _).1, hflow]
    exact e.count_colorName
  · have hsymbol : builtinSymbol e b = some ⟨.builtin, builtinName b⟩ := by
      cases b with
      | fragColor => exact (hcolor rfl).elim
      | _ => rfl
    rw [hsymbol] at ha
    cases ha
    rw [hinv.count_extra rfl, (count_furtherSymbols _ _).2.1, count_builtin o hstage hb hcolor]

theorem count_output (o : Options) {declared : List Symbol}
    (hinv : Inventory e.usage declared (furtherSymbols e (entryFlow e o)))
    (hstage : e.stage = .fragment) {n : String} (hn : n ∈ e.usage.outputs) :
    declared.count ⟨.output, n⟩ = 1 := by
  obtain ⟨input, hflow⟩ := entryFlow_of_written o hstage (.inl (List.ne_nil_of_mem hn))
  rw [hinv.count_extra rfl, (count_furtherSymbols _ _).1, hflow]
  exact e.count_outputNames hn

/-- What is written to leave an entry function, with a value or without: what takes the value, and
what follows. -/
def LeavesWith (flow : Flow) (withValue : Bool) (x : Code.Expr) : Prop :=
  (withValue = true ∧ resultTarget? flow = some x) ∨ x ∈ Code.exprsAll (tail flow)

/-- Whatever leaves an entry function mentions the result of its stage, which is declared once. -/
theorem count_result (o : Options) {declared : List Symbol}
    (hinv : Inventory e.usage declared (furtherSymbols e (entryFlow e o))) {withValue : Bool}
    {x : Code.Expr} (hx : LeavesWith (entryFlow e o) withValue x) :
    ∀ a ∈ builtinSymbol e e.stage.result, declared.count a = 1 := by
  intro a ha
  rcases entryFlow_cases e o with ⟨hstage, hflow⟩ | ⟨input, hstage, hflow⟩ | ⟨hnone, -⟩
  · rw [hstage] at ha
    cases ha
    rw [hinv.count_extra rfl, (count_furtherSymbols _ _).2.1, hflow]
    simp [entryNames, builtinName, Stage.result, count_ite_singleton]
  · rw [hstage] at ha
    cases ha
    rw [hinv.count_extra rfl, (count_furtherSymbols _ _).1, hflow]
    exact e.count_colorName
  · rw [LeavesWith, hnone, (leave_of_resultTarget?_eq_none hnone).2] at hx
    rcases hx with ⟨-, hx⟩ | hx <;> cases hx

theorem leave_entry (flow : Flow) (v : Option Code.Expr) :
    ∀ x ∈ Code.exprsAll ((target (.entry flow)).leave v), v = some x ∨
      LeavesWith flow v.isSome x := by
  intro x hx
  cases htarget : resultTarget? flow with
  | none =>
      cases v with
      | none =>
          simp only [target, leave, htarget] at hx
          cases hx
      | some y =>
          simp only [target, leave, htarget] at hx
          exact .inl (congrArg some (List.mem_singleton.mp hx).symm)
  | some field =>
      cases v with
      | none =>
          simp only [target, leave, htarget] at hx
          exact .inr (.inr hx)
      | some y =>
          simp only [target, leave, htarget] at hx
          rcases List.mem_append.mp hx with hx | hx
          · rcases List.mem_cons.mp hx with rfl | hx
            · exact .inr (.inl ⟨rfl, htarget⟩)
            · exact .inl (congrArg some (List.mem_singleton.mp hx).symm)
          · exact .inr (.inr hx)

theorem mem_exprs_locals {flow : Flow} {x : Code.Expr} (hx : x ∈ Code.exprsAll (locals e flow)) :
    x = .word "1.0" := by
  cases flow with
  | vertex output remap =>
      cases output <;> cases hsize : e.usesBuiltin .pointSize <;>
        simp_all [locals, Code.exprsAll, Code.Statement.exprs]
  | fragment input output color =>
      cases output <;> simp_all [locals, Code.exprsAll, Code.Statement.exprs]

/-- The expressions of a module are those of recorded code, the size of a point to start with, and
those that leave the entry function. -/
theorem writes_of_emit (h : emit e o = .ok m)
    (hu : Usage.of e.decls e.stage e.body = .ok e.usage) {x : Code.Expr} (hx : x ∈ m.exprs) :
    (∃ place, (place = .entry (entryFlow e o) ∨ place = .helper e.stage) ∧
      (target place).Writes e.usage x) ∨ x = .word "1.0" ∨
      LeavesWith (entryFlow e o) e.usage.returnsValue x := by
  obtain ⟨hconstants, hfunctions⟩ := emit_code h
  obtain ⟨code, hcode, -, hbody⟩ := emit_entry h
  rcases List.mem_append.mp hx with hx | hx
  · rcases List.mem_append.mp hx with hx | hx
    · obtain ⟨constant, hconstant, rfl⟩ := List.mem_map.mp hx
      exact .inl ⟨_, .inl rfl,
        (Code.Target.writes_constants hu hconstants).2 constant hconstant⟩
    · obtain ⟨f, hf, hx⟩ := List.mem_flatMap.mp hx
      exact .inl ⟨_, .inr rfl,
        (Code.Target.writes_functions hu (leave_helper _) hfunctions).2 f hf x hx⟩
  · rw [hbody, Code.exprsAll_append, Code.exprsAll_append] at hx
    rcases List.mem_append.mp hx with hx | hx
    · rcases List.mem_append.mp hx with hx | hx
      · exact .inr (.inl (mem_exprs_locals hx))
      · rcases Code.Target.writes_body hu (leave_entry _) hcode hx with
          hx | ⟨value, hleave, ⟨hsome, hx⟩ | hx⟩
        · exact .inl ⟨_, .inl rfl, hx⟩
        · obtain ⟨y, rfl⟩ := Option.isSome_iff_exists.mp hsome
          exact .inr (.inr (.inl ⟨(Usage.returnsValue_iff hu).mpr ⟨y, hleave⟩, hx⟩))
        · exact .inr (.inr (.inr hx))
    · split at hx
      · cases hx
      · exact .inr (.inr (.inr hx))

/-- What a layout has for an entry point: the attributes of a vertex, and a sampler object for each
sampler that is filtered. -/
structure Supplied (e : Emission) : Prop where
  attributes : e.stage = .vertex → e.layout.attributes.map Prod.fst = e.usage.attributes.toList
  objects : ∀ n ∈ e.usage.samplers, ∀ decl, e.decls.samplers.get? n = some decl →
    decl.kind.isPaired = true → ((e.layout.sampler? n).bind (·.object)).isSome = true

/-- Every expression in a module is one of recorded code and all that its text mentions is used and
declared once, or else it is the first size of a point, or it leaves the entry function with its
result.  Textures that are filtered have their sampler objects. -/
structure Closed (e : Emission) (o : Options) (m : Module) : Prop where
  start : locals e (entryFlow e o) <+: m.entry.body
  exprs : ∀ x ∈ m.exprs,
    (∃ place, (place = .entry (entryFlow e o) ∨ place = .helper e.stage) ∧
      ∃ recorded, lower place recorded = .ok x ∧
        Accounts e.usage (m.symbols (locals e (entryFlow e o))) (needs e) (spell place)
          ((vocabulary place).mentions recorded) x) ∨
    x = .word "1.0" ∨
    (LeavesWith (entryFlow e o) e.usage.returnsValue x ∧
      ∀ a ∈ needs e (.handle (.builtin e.stage.result)),
        (m.symbols (locals e (entryFlow e o))).count a = 1)
  objects : ∀ n ∈ e.usage.samplers, ∀ decl, e.decls.samplers.get? n = some decl →
    decl.kind.isPaired = true →
      (m.symbols (locals e (entryFlow e o))).count ⟨.samplerObject, samplerObject n⟩ = 1

theorem closed_of_emit (h : emit e o = .ok m) (hd : e.decls.NamesApart)
    (hu : Usage.of e.decls e.stage e.body = .ok e.usage) (hlayout : Supplied e) :
    Closed e o m := by
  have hinv := inventory_of_emit h hu hlayout.attributes
  have hstage := Usage.stageOnly_of_eq_ok hu
  have hdeclared := Usage.declared_of_eq_ok hu
  refine ⟨?_, ?_, ?_⟩
  · obtain ⟨code, -, -, hbody⟩ := emit_entry h
    rw [hbody, List.append_assoc]
    exact List.prefix_append _ _
  · intro x hx
    rcases writes_of_emit h hu hx with ⟨place, hplace, recorded, hlower, hholds⟩ | hx | hx
    · have hused : ∀ a ∈ (vocabulary place).mentions recorded, ∀ ev ∈ a.event?,
          e.usage.Holds ev :=
        fun a ha ev hev ↦ hholds ev ((vocabulary place).event_of_mentions recorded ha hev)
      refine .inl ⟨place, hplace, recorded, hlower, words_lower place recorded x hlower, hused, ?_⟩
      intro a ha symbol
      refine hinv.count_eq_one hd hdeclared ?_ ?_ (hused a ha)
      · intro b hb
        exact count_builtinSymbol o hinv (hstage.builtins b hb) (decide_eq_true hb)
      · intro n hn a ha
        cases ha
        exact count_output o hinv (hstage.outputs n hn) hn
    · exact .inr (.inl hx)
    · exact .inr (.inr ⟨hx, count_result o hinv hx⟩)
  · intro n hn decl hdecl hpaired
    rw [hinv.count_extra rfl, (count_furtherSymbols _ _).2.2]
    refine List.count_eq_one_of_mem (nodup_objectNames e) (List.mem_map_of_mem ?_)
    exact List.mem_filterMap.mpr ⟨.sampler n, (mem_bindings_sampler hdeclared).mpr hn,
      filtered?_eq_some.mpr ⟨rfl, hlayout.objects n hn decl hdecl hpaired⟩⟩

end Shading.Wgsl
