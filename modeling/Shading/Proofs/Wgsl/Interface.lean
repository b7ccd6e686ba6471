import Shading.Proofs.Collection
import Shading.Proofs.Layout.Locations
import Shading.Proofs.Outcome
import Shading.Wgsl.Emit

/-!
# Numbers in a module

Locations, groups and bindings in the text of a module stand at the fields of its interface structs,
at the parameters of its entry function and at its resources.  They are the numbers of the layout,
and what is declared with them is what the entry point uses.
-/

namespace Shading.Wgsl

/-! ### Locations and kinds -/

def Member.location? (a : Member) : Option Nat :=
  a.attributes.findSome? fun
    | .location i => some i
    | _ => none

inductive ResourceKind where
  | buffer
  | texture
  | samplerObject
  deriving DecidableEq, Repr

def Resource.kind (r : Resource) : ResourceKind :=
  if r.isUniform then .buffer
  else if r.type = .named "sampler" then .samplerObject
  else .texture

namespace Module

/-- The fields of an interface struct. -/
def fieldsOf (m : Module) (struct : String) : List Member :=
  (m.interface.filter (·.name = struct)).flatMap Struct.fields

/-- The varyings among what a vertex gives and what a fragment takes. -/
def varyings (m : Module) : List Member :=
  (m.fieldsOf vertexOutput ++ m.fieldsOf fragmentInputName).filter fun a ↦ a.location?.isSome

theorem mem_fieldsOf {m : Module} {struct : String} {a : Member} :
    a ∈ m.fieldsOf struct ↔ ∃ s ∈ m.interface, s.name = struct ∧ a ∈ s.fields := by
  simp [fieldsOf, and_assoc]

theorem mem_varyings {m : Module} {a : Member} : a ∈ m.varyings ↔
    (a ∈ m.fieldsOf vertexOutput ∨ a ∈ m.fieldsOf fragmentInputName) ∧
      a.location?.isSome = true := by
  rw [varyings, List.mem_filter, List.mem_append]

end Module

/-! ### Parts of a module -/

variable {e : Emission} {o : Options} {m : Module}

def entryFlow (e : Emission) (o : Options) : Flow :=
  flow e (o.remapDepth && e.stage = .vertex)

theorem emit_eq_ok (h : emit e o = .ok m) :
    structs e = .ok m.structs ∧ resources e = .ok m.resources ∧
      interface e (entryFlow e o) = .ok m.interface ∧
      params e (entryFlow e o) = .ok m.entry.params := by
  obtain ⟨structs, hstructs, h⟩ := bind_eq_ok.mp h
  obtain ⟨resources, hresources, h⟩ := bind_eq_ok.mp h
  obtain ⟨constants, -, h⟩ := bind_eq_ok.mp h
  obtain ⟨functions, -, h⟩ := bind_eq_ok.mp h
  obtain ⟨interface, hinterface, h⟩ := bind_eq_ok.mp h
  obtain ⟨entry, hentry, h⟩ := bind_eq_ok.mp h
  obtain ⟨params, hparams, hentry⟩ := bind_eq_ok.mp hentry
  obtain ⟨body, -, hentry⟩ := bind_eq_ok.mp hentry
  cases hentry
  cases h
  exact ⟨hstructs, hresources, hinterface, hparams⟩

theorem mem_interface_vertex {output remap : Bool} {ss : List Struct}
    (h : interface e (.vertex output remap) = .ok ss) {s : Struct} :
    s ∈ ss ↔ output = true ∧
      ∃ fields, varyingFields e = .ok fields ∧ s = ⟨vertexOutput, positionField :: fields⟩ := by
  cases output with
  | false =>
      cases h
      simp
  | true =>
      obtain ⟨fields, hfields, h⟩ := bind_eq_ok.mp h
      cases h
      simp [hfields]

theorem mem_interface_fragment {input output : Bool} {color : String} {ss : List Struct}
    (h : interface e (.fragment input output color) = .ok ss) {s : Struct} :
    s ∈ ss ↔
      (input = true ∧ ∃ fields, varyingFields e = .ok fields ∧
        s = ⟨fragmentInputName, fragmentBuiltins e ++ fields⟩) ∨
      (output = true ∧ ∃ fields, outputFields e = .ok fields ∧ s = ⟨fragmentOut, fields⟩) := by
  cases input with
  | false =>
      cases output with
      | false =>
          cases h
          simp
      | true =>
          obtain ⟨inputs, hinputs, h⟩ := bind_eq_ok.mp h
          cases hinputs
          obtain ⟨results, hresults, h⟩ := bind_eq_ok.mp h
          cases h
          simp [hresults]
  | true =>
      obtain ⟨fields, hfields, h⟩ := bind_eq_ok.mp h
      cases output with
      | false =>
          cases h
          simp [hfields]
      | true =>
          obtain ⟨inputs, hinputs, h⟩ := bind_eq_ok.mp h
          cases hinputs
          obtain ⟨results, hresults, h⟩ := bind_eq_ok.mp h
          cases h
          simp [hfields, hresults]

/-- The structs that carry what goes in and out of an entry point. -/
inductive Carries (e : Emission) : Struct → Prop
  | vertexOutput {fields : List Member} (h : varyingFields e = .ok fields) :
      Carries e ⟨vertexOutput, positionField :: fields⟩
  | fragmentInput {fields : List Member} (h : varyingFields e = .ok fields) :
      Carries e ⟨fragmentInputName, fragmentBuiltins e ++ fields⟩
  | fragmentOut {fields : List Member} (hstage : e.stage = .fragment)
      (h : outputFields e = .ok fields) : Carries e ⟨fragmentOut, fields⟩

theorem fragmentOut_ne : fragmentOut ≠ vertexOutput ∧ fragmentOut ≠ fragmentInputName := by
  decide

theorem entryFlow_vertex (o : Options) (h : e.stage = .vertex) : ∃ output remap,
    entryFlow e o = .vertex output remap ∧ ∀ n ∈ e.usage.varyings, output = true := by
  rw [entryFlow, flow, h]
  refine ⟨_, _, rfl, ?_⟩
  intro n hn
  have hnonempty : e.usage.varyings.isEmpty = false :=
    List.isEmpty_eq_false_iff_exists_mem.mpr ⟨n, hn⟩
  simp [hnonempty]

theorem entryFlow_fragment (o : Options) (h : e.stage = .fragment) : ∃ input output color,
    entryFlow e o = .fragment input output color ∧ ∀ n ∈ e.usage.varyings, input = true := by
  rw [entryFlow, flow, h]
  refine ⟨_, _, _, rfl, ?_⟩
  intro n hn
  have hnonempty : e.usage.varyings.isEmpty = false :=
    List.isEmpty_eq_false_iff_exists_mem.mpr ⟨n, hn⟩
  simp [hnonempty]

theorem carries_of_mem (h : interface e (entryFlow e o) = .ok m.interface) {s : Struct}
    (hs : s ∈ m.interface) : Carries e s := by
  cases hstage : e.stage with
  | vertex =>
      obtain ⟨output, remap, hflow, -⟩ := entryFlow_vertex o hstage
      rw [hflow] at h
      obtain ⟨-, fields, hfields, rfl⟩ := (mem_interface_vertex h).mp hs
      exact .vertexOutput hfields
  | fragment =>
      obtain ⟨input, output, color, hflow, -⟩ := entryFlow_fragment o hstage
      rw [hflow] at h
      rcases (mem_interface_fragment h).mp hs with
        ⟨-, fields, hfields, rfl⟩ | ⟨-, fields, hfields, rfl⟩
      · exact .fragmentInput hfields
      · exact .fragmentOut hstage hfields

/-- If there are varyings, a struct carries them. -/
theorem exists_carrier (h : interface e (entryFlow e o) = .ok m.interface) {n : String}
    (hn : n ∈ e.usage.varyings) : ∃ fields, varyingFields e = .ok fields ∧ ∃ s ∈ m.interface,
      (s.name = vertexOutput ∨ s.name = fragmentInputName) ∧ ∀ a ∈ fields, a ∈ s.fields := by
  cases hstage : e.stage with
  | vertex =>
      obtain ⟨output, remap, hflow, houtput⟩ := entryFlow_vertex o hstage
      obtain rfl := houtput n hn
      rw [hflow] at h
      obtain ⟨fields, hfields, -⟩ := bind_eq_ok.mp h
      refine ⟨fields, hfields, _, (mem_interface_vertex h).mpr ⟨rfl, fields, hfields, rfl⟩,
        .inl rfl, ?_⟩
      intro a ha
      exact List.mem_cons_of_mem _ ha
  | fragment =>
      obtain ⟨input, output, color, hflow, hinput⟩ := entryFlow_fragment o hstage
      obtain rfl := hinput n hn
      rw [hflow] at h
      obtain ⟨fields, hfields, -⟩ := bind_eq_ok.mp h
      refine ⟨fields, hfields, _,
        (mem_interface_fragment h).mpr (.inl ⟨rfl, fields, hfields, rfl⟩), .inr rfl, ?_⟩
      intro a ha
      exact List.mem_append_right _ ha

/-! ### Varyings, attributes and outputs -/

/-- The layout has what the entry point uses. -/
structure Placed (e : Emission) : Prop where
  attributes : ∀ n i, (n, i) ∈ e.layout.attributes → e.layout.attribute? n = some i
  varyings : ∀ n ∈ e.usage.varyings, ∃ i, e.layout.varying? n = some i
  outputs : e.stage = .fragment → Layout.Located e.usage.outputs.toList e.layout.outputs

/-- The field of a declared varying at its location. -/
inductive ShowsVarying (d : Declarations) (l : Layout) : Member → Prop
  | intro {name : String} {decl : VaryingDecl} {i : Nat} (hdecl : d.varyings.get? name = some decl)
      (hi : l.varying? name = some i) :
      ShowsVarying d l ⟨.location i :: interpolateAttribute decl, name, .ofTy decl.type⟩

theorem ShowsVarying.location? {d : Declarations} {l : Layout} {a : Member}
    (h : ShowsVarying d l a) : ∃ i, a.location? = some i ∧ l.varying? a.name = some i := by
  obtain ⟨hdecl, hi⟩ := h
  exact ⟨_, rfl, hi⟩

theorem ShowsVarying.eq_of_name {d : Declarations} {l : Layout} {a b : Member}
    (ha : ShowsVarying d l a) (hb : ShowsVarying d l b) (h : a.name = b.name) : a = b := by
  obtain ⟨hdecl, hi⟩ := ha
  obtain ⟨hdecl', hi'⟩ := hb
  cases h
  rw [hdecl] at hdecl'
  rw [hi] at hi'
  cases hdecl'
  cases hi'
  rfl

theorem mem_varyingFields (he : Placed e) {fields : List Member}
    (h : varyingFields e = .ok fields) {a : Member} :
    a ∈ fields ↔ a.name ∈ e.usage.varyings ∧ ShowsVarying e.decls e.layout a := by
  rw [mem_mapM h]
  constructor
  · rintro ⟨⟨n, i⟩, hmem, ha⟩
    rw [Emission.varyingsByLocation, Layout.mem_sortByLocation] at hmem
    obtain ⟨n', hn, heq⟩ := List.mem_map.mp hmem
    obtain ⟨j, hj⟩ := he.varyings n' hn
    rw [hj] at heq
    cases heq
    obtain ⟨decl, hdecl, ha⟩ := bind_eq_ok.mp ha
    cases ha
    exact ⟨hn, .intro (Declarations.find_eq_ok.mp hdecl) hj⟩
  · rintro ⟨hn, ⟨hdecl, hi⟩⟩
    refine ⟨_, Layout.mem_sortByLocation.mpr (List.mem_map_of_mem hn), ?_⟩
    simp only [hi, Option.getD_some]
    exact bind_eq_ok.mpr ⟨_, Declarations.find_eq_ok.mpr hdecl, rfl⟩

theorem eq_of_mem_ite {used : Bool} {a b : Member} (h : a ∈ if used then [b] else []) :
    a = b := by
  split at h
  · exact List.mem_singleton.mp h
  · cases h

theorem location?_fragmentBuiltins {a : Member} (h : a ∈ fragmentBuiltins e) :
    a.location? = none := by
  rcases List.mem_append.mp h with h | h
  · rw [eq_of_mem_ite h]
    rfl
  · rw [eq_of_mem_ite h]
    rfl

/-- The varyings of a module are those that the entry point uses. -/
theorem mem_varyings_iff (he : Placed e) (h : interface e (entryFlow e o) = .ok m.interface)
    {a : Member} :
    a ∈ m.varyings ↔ a.name ∈ e.usage.varyings ∧ ShowsVarying e.decls e.layout a := by
  rw [Module.mem_varyings, Module.mem_fieldsOf, Module.mem_fieldsOf]
  constructor
  · rintro ⟨hmem, hlocation⟩
    have hstruct : ∃ s ∈ m.interface,
        (s.name = vertexOutput ∨ s.name = fragmentInputName) ∧ a ∈ s.fields := by
      rcases hmem with ⟨s, hs, hname, ha⟩ | ⟨s, hs, hname, ha⟩
      · exact ⟨s, hs, .inl hname, ha⟩
      · exact ⟨s, hs, .inr hname, ha⟩
    obtain ⟨s, hs, hname, ha⟩ := hstruct
    -- Fields without a location are built-in values.
    cases carries_of_mem h hs with
    | vertexOutput hfields =>
        rcases List.mem_cons.mp ha with rfl | ha
        · cases hlocation
        · exact (mem_varyingFields he hfields).mp ha
    | fragmentInput hfields =>
        rcases List.mem_append.mp ha with ha | ha
        · rw [location?_fragmentBuiltins ha] at hlocation
          cases hlocation
        · exact (mem_varyingFields he hfields).mp ha
    | fragmentOut => exact (hname.elim fragmentOut_ne.1 fragmentOut_ne.2).elim
  · rintro ⟨hn, hshows⟩
    obtain ⟨i, hi, -⟩ := hshows.location?
    obtain ⟨fields, hfields, s, hs, hname, hsub⟩ := exists_carrier h hn
    have ha : a ∈ s.fields := hsub a ((mem_varyingFields he hfields).mpr ⟨hn, hshows⟩)
    refine ⟨?_, by rw [hi]; rfl⟩
    rcases hname with hname | hname
    · exact .inl ⟨s, hs, hname, ha⟩
    · exact .inr ⟨s, hs, hname, ha⟩

/-- Without outputs there is a field for the colour. -/
def colorField : Member :=
  ⟨[.location 0], "color", vector4⟩

theorem location?_outputs (he : Placed e) (h : interface e (entryFlow e o) = .ok m.interface)
    {a : Member} (ha : a ∈ m.fieldsOf fragmentOut) :
    (∃ i, a.location? = some i ∧ e.layout.output? a.name = some i) ∨
      e.layout.outputs = [] ∧ a = colorField := by
  obtain ⟨s, hs, hname, ha⟩ := Module.mem_fieldsOf.mp ha
  cases carries_of_mem h hs with
  | vertexOutput => exact (fragmentOut_ne.1 hname.symm).elim
  | fragmentInput => exact (fragmentOut_ne.2 hname.symm).elim
  | fragmentOut hstage hfields =>
      have hlocated := he.outputs hstage
      rw [outputFields] at hfields
      split at hfields
      · next hnone =>
        cases hfields
        refine .inr ⟨?_, List.mem_singleton.mp ha⟩
        apply List.map_eq_nil_iff.mp
        rw [hlocated.names]
        apply List.eq_nil_iff_forall_not_mem.mpr
        intro n hn
        have hmem := Layout.mem_sortByLocation.mpr (List.mem_map_of_mem
          (f := fun n ↦ (n, e.outputLocation n)) hn)
        rw [Emission.outputsByLocation] at hnone
        rw [hnone] at hmem
        cases hmem
      · obtain ⟨⟨n, i⟩, hmem, ha⟩ := (mem_mapM hfields).mp ha
        rw [Emission.outputsByLocation, Layout.mem_sortByLocation] at hmem
        obtain ⟨n', hn, heq⟩ := List.mem_map.mp hmem
        obtain ⟨j, hj⟩ := hlocated.exists_lookup hn
        rw [Emission.outputLocation, Layout.output?, hj] at heq
        cases heq
        obtain ⟨decl, -, ha⟩ := bind_eq_ok.mp ha
        cases ha
        exact .inl ⟨_, rfl, hj⟩

theorem location?_params (he : Placed e) {flow : Flow} {ps : List Member}
    (h : params e flow = .ok ps) {a : Member} (ha : a ∈ ps) {i : Nat} (hi : a.location? = some i) :
    e.layout.attribute? a.name = some i := by
  match flow, h with
  | .vertex .., h =>
      obtain ⟨attributes, hattributes, h⟩ := bind_eq_ok.mp h
      cases h
      rcases List.mem_append.mp ha with ha | ha
      · rcases List.mem_append.mp ha with ha | ha
        · obtain ⟨⟨n, j⟩, hmem, ha⟩ := (mem_mapM hattributes).mp ha
          obtain ⟨decl, -, ha⟩ := bind_eq_ok.mp ha
          cases ha
          cases hi
          exact he.attributes n _ (Layout.mem_sortByLocation.mp hmem)
        · obtain rfl := eq_of_mem_ite ha
          cases hi
      · obtain rfl := eq_of_mem_ite ha
        cases hi
  | .fragment true _ _, h =>
      cases h
      obtain rfl := List.mem_singleton.mp ha
      cases hi
  | .fragment false _ _, h =>
      cases h
      rw [location?_fragmentBuiltins ha] at hi
      cases hi

/-! ### Resources -/

/-- The resources of a declared uniform, struct uniform or sampler at its slots. -/
inductive Shows (d : Declarations) (l : Layout) : Handle → Resource → Prop
  | uniform {n : String} {decl : UniformDecl} {point : BindingPoint}
      (hdecl : d.uniforms.get? n = some decl) (hpoint : l.uniform? n = some point) :
      Shows d l (.uniform n) ⟨point.group, point.index, true, n, .ofTy decl.type⟩
  | uniformStruct {n : String} {decl : StructUniformDecl} {point : BindingPoint}
      (hdecl : d.uniformStructs.get? n = some decl) (hpoint : l.uniform? n = some point) :
      Shows d l (.uniformStruct n) ⟨point.group, point.index, true, n, .named decl.struct.name⟩
  | texture {n : String} {decl : SamplerDecl} {slots : SamplerSlots}
      (hdecl : d.samplers.get? n = some decl) (hslots : l.sampler? n = some slots) :
      Shows d l (.sampler n)
        ⟨slots.group, slots.texture, false, n, .named (textureType decl.kind)⟩
  | samplerObject {n : String} {decl : SamplerDecl} {slots : SamplerSlots} {i : Nat}
      (hdecl : d.samplers.get? n = some decl) (hslots : l.sampler? n = some slots)
      (hi : slots.object = some i) :
      Shows d l (.sampler n) ⟨slots.group, i, false, samplerObject n, .named "sampler"⟩

theorem uniformPoint_eq_ok {n : String} {point : BindingPoint} :
    uniformPoint e n = .ok point ↔ e.layout.uniform? n = some point := by
  rw [uniformPoint]
  cases e.layout.uniform? n <;> simp

theorem samplerSlots_eq_ok {n : String} {slots : SamplerSlots} :
    samplerSlots e n = .ok slots ↔ e.layout.sampler? n = some slots := by
  rw [samplerSlots]
  cases e.layout.sampler? n <;> simp

theorem mem_bindingResources {h : Handle} {rs : List Resource} (hrs : bindingResources e h = .ok rs)
    {r : Resource} : r ∈ rs ↔ Shows e.decls e.layout h r := by
  cases h with
  | uniform n =>
      obtain ⟨decl, hdecl, hrs⟩ := bind_eq_ok.mp hrs
      obtain ⟨point, hpoint, hrs⟩ := bind_eq_ok.mp hrs
      cases hrs
      have hdecl := Declarations.find_eq_ok.mp hdecl
      have hpoint := uniformPoint_eq_ok.mp hpoint
      rw [List.mem_singleton]
      constructor
      · rintro rfl
        exact .uniform hdecl hpoint
      · intro hshows
        cases hshows with
        | uniform hdecl' hpoint' =>
            cases hdecl.symm.trans hdecl'
            cases hpoint.symm.trans hpoint'
            rfl
  | uniformStruct n =>
      obtain ⟨decl, hdecl, hrs⟩ := bind_eq_ok.mp hrs
      obtain ⟨point, hpoint, hrs⟩ := bind_eq_ok.mp hrs
      cases hrs
      have hdecl := Declarations.find_eq_ok.mp hdecl
      have hpoint := uniformPoint_eq_ok.mp hpoint
      rw [List.mem_singleton]
      constructor
      · rintro rfl
        exact .uniformStruct hdecl hpoint
      · intro hshows
        cases hshows with
        | uniformStruct hdecl' hpoint' =>
            cases hdecl.symm.trans hdecl'
            cases hpoint.symm.trans hpoint'
            rfl
  | sampler n =>
      obtain ⟨decl, hdecl, hrs⟩ := bind_eq_ok.mp hrs
      obtain ⟨slots, hslots, hrs⟩ := bind_eq_ok.mp hrs
      cases hrs
      have hdecl := Declarations.find_eq_ok.mp hdecl
      have hslots := samplerSlots_eq_ok.mp hslots
      rw [List.mem_cons, List.mem_map]
      constructor
      · rintro (rfl | ⟨i, hi, rfl⟩)
        · exact .texture hdecl hslots
        · exact .samplerObject hdecl hslots (Option.mem_toList.mp hi)
      · intro hshows
        cases hshows with
        | texture hdecl' hslots' =>
            cases hdecl.symm.trans hdecl'
            cases hslots.symm.trans hslots'
            exact .inl rfl
        | samplerObject _ hslots' hi =>
            cases hslots.symm.trans hslots'
            exact .inr ⟨_, Option.mem_toList.mpr hi, rfl⟩
  | _ =>
      cases hrs
      constructor
      · intro hr
        cases hr
      · intro hshows
        cases hshows

theorem mem_resources {rs : List Resource} (h : resources e = .ok rs) {r : Resource} :
    r ∈ rs ↔ ∃ a ∈ e.usage.bindings, Shows e.decls e.layout a r := by
  obtain ⟨lists, hlists, h⟩ := bind_eq_ok.mp h
  cases h
  rw [List.mem_flatten]
  constructor
  · rintro ⟨rs, hmem, hr⟩
    obtain ⟨a, ha, hrs⟩ := (mem_mapM hlists).mp hmem
    exact ⟨a, ha, (mem_bindingResources hrs).mp hr⟩
  · rintro ⟨a, ha, hshows⟩
    obtain ⟨rs, hmem, hrs⟩ := exists_mem_of_mem_mapM hlists ha
    exact ⟨rs, hmem, (mem_bindingResources hrs).mpr hshows⟩

end Shading.Wgsl
