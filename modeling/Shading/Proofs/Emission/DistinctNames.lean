import Shading.Proofs.Emission.Closed
import Shading.Proofs.Program.Observation

/-!
# Distinct names

The names in a text are those that its author gave, and a few that the text makes up: fields for
built-in values in the interface structs of a module, sampler objects beside filtered textures, and
the output for the colour in a shader of version 3.00.  Names of either sort differ from each other.
What is made up is not compared with what is given, so that the two may clash.

Main statements: where a name is made up and given, it is declared twice, and all other names are
declared once.  So the names are distinct exactly if nothing clashes.
-/

namespace Shading

/-! ### Clashes -/

/-- Names are distinct but for clashes, where two things share a name. -/
structure DistinctBut (clash : String → Prop) (names : List String) : Prop where
  nodup_iff : names.Nodup ↔ ∀ n, ¬ clash n
  twice : ∀ n, clash n → names.count n = 2
  once : ∀ n ∈ names, ¬ clash n → names.count n = 1

/-- Two lists of distinct names clash where they meet. -/
theorem distinctBut_of_perm {clash : String → Prop} {names given : List String}
    (own : List String) (hperm : names.Perm (own ++ given)) (hown : own.Nodup)
    (hgiven : given.Nodup) (hclash : ∀ n, clash n ↔ n ∈ own ∧ n ∈ given) :
    DistinctBut clash names := by
  have hcount : ∀ n, names.count n =
      (if n ∈ own then 1 else 0) + (if n ∈ given then 1 else 0) := by
    intro n
    rw [hperm.count_eq, List.count_append, hown.count, hgiven.count]
  constructor
  · rw [hperm.nodup_iff, List.nodup_append']
    constructor
    · rintro ⟨-, -, hdisjoint⟩ n hn
      obtain ⟨hn, hn'⟩ := (hclash n).mp hn
      exact hdisjoint hn hn'
    · intro hnone
      exact ⟨hown, hgiven, fun n hn hn' ↦ hnone n ((hclash n).mpr ⟨hn, hn'⟩)⟩
  · intro n hn
    obtain ⟨hn, hn'⟩ := (hclash n).mp hn
    rw [hcount, if_pos hn, if_pos hn']
  · intro n hn hnone
    rw [hclash] at hnone
    rcases List.mem_append.mp (hperm.mem_iff.mp hn) with hn | hn
    · rw [hcount, if_pos hn, if_neg fun hn' ↦ hnone ⟨hn, hn'⟩]
    · rw [hcount, if_neg fun hn' ↦ hnone ⟨hn', hn⟩, if_pos hn]

/-- The resources that are used, by name. -/
theorem Usage.mem_names_resource {u : Usage} {d : Declarations} (hu : u.Declared d) {n : String} :
    n ∈ u.names .resource ↔ n ∈ u.uniforms ∨ n ∈ u.uniformStructs ∨ n ∈ u.samplers := by
  constructor
  · exact Usage.wants_of_mem_names (s := ⟨.resource, n⟩) hu
  · rintro (hn | hn | hn)
    · exact List.mem_map_of_mem ((hu.bindings (.uniform n)).mpr (.inl ⟨n, hn, rfl⟩))
    · exact List.mem_map_of_mem ((hu.bindings (.uniformStruct n)).mpr (.inr (.inl ⟨n, hn, rfl⟩)))
    · exact List.mem_map_of_mem ((hu.bindings (.sampler n)).mpr (.inr (.inr ⟨n, hn, rfl⟩)))

end Shading

namespace Shading.Wgsl

variable {e : Emission} {o : Options} {m : Module}

/-! ### Fields of interface structs -/

theorem names_varyingFields {fields : List Member} (h : varyingFields e = .ok fields) :
    fields.map Member.name = e.varyingsByLocation.map Prod.fst := by
  refine map_mapM h ?_
  intro n _ a ha
  obtain ⟨decl, -, ha⟩ := bind_eq_ok.mp ha
  cases ha
  rfl

theorem names_outputFields {fields : List Member} (h : outputFields e = .ok fields) :
    fields.map Member.name = e.outputNames := by
  unfold outputFields at h
  split at h
  · next hnone =>
    cases h
    rw [e.outputNames_of_eq_nil hnone]
    rfl
  · next hsome =>
    rw [e.outputNames_of_ne_nil hsome]
    refine map_mapM h ?_
    intro n _ a ha
    obtain ⟨decl, -, ha⟩ := bind_eq_ok.mp ha
    cases ha
    rfl

theorem names_fragmentBuiltins (e : Emission) :
    (fragmentBuiltins e).map Member.name = takenBuiltins e := by
  unfold fragmentBuiltins takenBuiltins
  cases e.usesBuiltin .fragCoord <;> cases e.usesBuiltin .frontFacing <;> rfl

theorem nodup_outputNames (e : Emission) : e.outputNames.Nodup := by
  rcases e.outputNames_cases with ⟨-, hnames⟩ | ⟨-, hperm⟩
  · rw [hnames]
    exact List.nodup_singleton _
  · exact hperm.nodup_iff.mpr e.usage.outputs.nodup

theorem perm_varyingsByLocation (e : Emission) :
    (e.varyingsByLocation.map Prod.fst).Perm e.usage.varyings.toList :=
  Layout.perm_names_sortByLocation _ _

/-- A varying has the name of the field for a built-in value in the same struct. -/
inductive FieldClash (u : Usage) : String → String → Prop
  | position (hvarying : "position" ∈ u.varyings) : FieldClash u vertexOutput "position"
  | fragCoord (hbuiltin : .fragCoord ∈ u.builtins) (hvarying : "frag_coord" ∈ u.varyings) :
      FieldClash u fragmentInputName "frag_coord"
  | frontFacing (hbuiltin : .frontFacing ∈ u.builtins) (hvarying : "front_facing" ∈ u.varyings) :
      FieldClash u fragmentInputName "front_facing"

theorem fieldClash_vertexOutput {u : Usage} {n : String} :
    FieldClash u vertexOutput n ↔ n = "position" ∧ n ∈ u.varyings := by
  constructor
  · generalize hstruct : vertexOutput = struct
    rintro (hvarying | ⟨-, -⟩ | ⟨-, -⟩)
    · exact ⟨rfl, hvarying⟩
    · exact absurd hstruct (by decide)
    · exact absurd hstruct (by decide)
  · rintro ⟨rfl, hvarying⟩
    exact .position hvarying

theorem mem_takenBuiltins {n : String} : n ∈ takenBuiltins e ↔
    n = "frag_coord" ∧ .fragCoord ∈ e.usage.builtins ∨
      n = "front_facing" ∧ .frontFacing ∈ e.usage.builtins := by
  simp only [takenBuiltins, Emission.usesBuiltin, List.mem_append, List.mem_ite_nil_right,
    List.mem_singleton, decide_eq_true_eq, and_comm]

theorem nodup_takenBuiltins (e : Emission) : (takenBuiltins e).Nodup := by
  unfold takenBuiltins
  cases e.usesBuiltin .fragCoord <;> cases e.usesBuiltin .frontFacing <;> decide

theorem fieldClash_fragmentInput {n : String} :
    FieldClash e.usage fragmentInputName n ↔ n ∈ takenBuiltins e ∧ n ∈ e.usage.varyings := by
  rw [mem_takenBuiltins]
  constructor
  · generalize hstruct : fragmentInputName = struct
    rintro (- | ⟨hbuiltin, hvarying⟩ | ⟨hbuiltin, hvarying⟩)
    · exact absurd hstruct (by decide)
    · exact ⟨.inl ⟨rfl, hbuiltin⟩, hvarying⟩
    · exact ⟨.inr ⟨rfl, hbuiltin⟩, hvarying⟩
  · rintro ⟨⟨rfl, hbuiltin⟩ | ⟨rfl, hbuiltin⟩, hvarying⟩
    · exact .fragCoord hbuiltin hvarying
    · exact .frontFacing hbuiltin hvarying

theorem not_fieldClash_fragmentOut {u : Usage} {n : String} : ¬ FieldClash u fragmentOut n := by
  generalize hstruct : fragmentOut = struct
  rintro (- | ⟨-, -⟩ | ⟨-, -⟩) <;> exact absurd hstruct (by decide)

/-- The fields of a struct are those for built-in values and those for varyings or outputs. -/
theorem Carries.distinctBut {s : Struct} (h : Carries e s) :
    DistinctBut (FieldClash e.usage s.name) (s.fields.map Member.name) := by
  have hvaryings := perm_varyingsByLocation e
  have hnodup := hvaryings.nodup_iff.mpr e.usage.varyings.nodup
  cases h with
  | vertexOutput hfields =>
      refine distinctBut_of_perm ["position"] (.of_eq ?_) (List.nodup_singleton _) hnodup ?_
      · rw [List.map_cons, names_varyingFields hfields]
        rfl
      · intro n
        rw [fieldClash_vertexOutput, List.mem_singleton, hvaryings.mem_iff, OrderedSet.mem_def]
  | fragmentInput hfields =>
      refine distinctBut_of_perm (takenBuiltins e) (.of_eq ?_) (nodup_takenBuiltins e) hnodup ?_
      · rw [List.map_append, names_fragmentBuiltins, names_varyingFields hfields]
      · intro n
        rw [fieldClash_fragmentInput, hvaryings.mem_iff, OrderedSet.mem_def]
  | fragmentOut _ hfields =>
      refine distinctBut_of_perm [] (.of_eq (names_outputFields hfields)) List.nodup_nil
        (nodup_outputNames e) ?_
      intro n
      simp [not_fieldClash_fragmentOut]

/-- The interface structs that an entry function has. -/
def structNames : Flow → List String
  | .vertex output _ => if output then [vertexOutput] else []
  | .fragment input output _ =>
    (if input then [fragmentInputName] else []) ++ (if output then [fragmentOut] else [])

theorem names_interface {flow : Flow} {ss : List Struct} (h : interface e flow = .ok ss) :
    ss.map Struct.name = structNames flow := by
  match flow, h with
  | .vertex false _, h =>
      cases h
      rfl
  | .vertex true _, h =>
      obtain ⟨fields, -, h⟩ := bind_eq_ok.mp h
      cases h
      rfl
  | .fragment false false _, h =>
      cases h
      rfl
  | .fragment false true _, h =>
      obtain ⟨inputs, hinputs, h⟩ := bind_eq_ok.mp h
      cases hinputs
      obtain ⟨fields, -, h⟩ := bind_eq_ok.mp h
      cases h
      rfl
  | .fragment true false _, h =>
      obtain ⟨fields, -, h⟩ := bind_eq_ok.mp h
      cases h
      rfl
  | .fragment true true _, h =>
      obtain ⟨fields, -, h⟩ := bind_eq_ok.mp h
      obtain ⟨inputs, hinputs, h⟩ := bind_eq_ok.mp h
      cases hinputs
      obtain ⟨fields, -, h⟩ := bind_eq_ok.mp h
      cases h
      rfl

/-- An interface has no struct twice. -/
theorem nodup_structNames (flow : Flow) : (structNames flow).Nodup := by
  cases flow with
  | vertex output remap =>
      rw [structNames]
      cases output <;> decide
  | fragment input output color =>
      rw [structNames]
      cases input <;> cases output <;> decide

/-- In each interface struct of a module the names of fields are distinct unless a varying has the
name of a built-in value that the struct has as well.  No field of the outputs of a fragment shares
its name. -/
theorem field_names_distinct_but (p : Program) (hp : p.Reachable) (name : String) (o : Options)
    (m : Module) (h : ((Query.wgsl name o).ask p).1 = .ok m) :
    ∃ u, ((Query.usage name).ask p).1 = .ok u ∧ (m.interface.map Struct.name).Nodup ∧
      ∀ s ∈ m.interface,
        (s.name = vertexOutput ∨ s.name = fragmentInputName ∨ s.name = fragmentOut) ∧
          DistinctBut (FieldClash u s.name) (s.fields.map Member.name) := by
  rw [(Query.answers_wgsl name o).ask_eq] at h
  obtain ⟨e, he, hemit⟩ := bind_eq_ok.mp h
  obtain ⟨-, -, husage, -, -⟩ := hp.emission he
  obtain ⟨-, -, hinterface, -⟩ := emit_eq_ok hemit
  refine ⟨e.usage, ((Query.answers_usage name).ask_eq p).trans husage, ?_, ?_⟩
  · rw [names_interface hinterface]
    exact nodup_structNames _
  · intro s hs
    have hcarries := carries_of_mem hinterface hs
    refine ⟨?_, hcarries.distinctBut⟩
    cases hcarries with
    | vertexOutput => exact .inl rfl
    | fragmentInput => exact .inr (.inl rfl)
    | fragmentOut => exact .inr (.inr rfl)

/-- Both stages use a varying with the name of the built-in position, and one with the name of the
window coordinate, which the fragment does not use itself. -/
def shadowing : List Action :=
  let vector := Ty.ofPrim (.vector .float .four)
  let offset := Term.ofHandle vector (.uniform "offset")
  let position := Term.ofHandle vector (.varying "position")
  let coord := Term.ofHandle vector (.varying "frag_coord")
  [.uniform "offset" vector ⟨0, none⟩,
    .varying "position" ⟨vector, none, none, none⟩,
    .varying "frag_coord" ⟨vector, none, none, none⟩,
    .entry "vs" .vertex do
      Recorder.set position offset
      Recorder.set coord offset
      Recorder.leave offset,
    .entry "fs" .fragment do
      Recorder.when (.builtin .frontFacing) (Recorder.leave position) Recorder.otherwiseNothing
      Recorder.leave coord]

/-- The fragment of the two has no clash. -/
theorem field_names_distinct_but_shadowing :
    ∃ m, ((Query.wgsl "fs" .default).ask (Action.run shadowing)).1 = .ok m ∧
      m.interface.map (fun s ↦ (s.name, s.fields.map Member.name)) =
        [("FragmentInput", ["front_facing", "position", "frag_coord"])] ∧
      ∀ s ∈ m.interface, (s.fields.map Member.name).Nodup := by
  have hnames : (((Query.wgsl "fs" .default).ask (Action.run shadowing)).1).toOption.map
      (fun m ↦ m.interface.map fun s ↦ (s.name, s.fields.map Member.name)) =
        some [("FragmentInput", ["front_facing", "position", "frag_coord"])] := by
    decide +kernel
  have husage : (((Query.usage "fs").ask (Action.run shadowing)).1).toOption.map
      (fun u ↦ u.builtins.toList) = some [.frontFacing] := by
    decide +kernel
  have hvaryings : (((Query.usage "fs").ask (Action.run shadowing)).1).toOption.map
      (fun u ↦ u.varyings.toList) = some ["position", "frag_coord"] := by
    decide +kernel
  obtain ⟨m, hm, hnames⟩ := Option.map_eq_some_iff.mp hnames
  obtain ⟨u, hu, -, hfields⟩ := field_names_distinct_but _ (Action.reachable_run shadowing) "fs"
    .default m (eq_ok_of_toOption hm)
  rw [hu] at husage hvaryings
  have hbuiltins : u.builtins.toList = [.frontFacing] := Option.some.inj husage
  have hvaryings : u.varyings.toList = ["position", "frag_coord"] := Option.some.inj hvaryings
  refine ⟨m, eq_ok_of_toOption hm, hnames, ?_⟩
  intro s hs
  have hname : s.name = fragmentInputName := by
    have hmem := List.mem_map_of_mem (f := fun s ↦ (s.name, s.fields.map Member.name)) hs
    rw [hnames] at hmem
    exact congrArg Prod.fst (List.mem_singleton.mp hmem)
  refine (hfields s hs).2.nodup_iff.mpr ?_
  intro n
  rw [hname]
  generalize hstruct : fragmentInputName = struct
  rintro (- | ⟨hbuiltin, -⟩ | ⟨-, hvarying⟩)
  · exact absurd hstruct (by decide)
  · rw [OrderedSet.mem_def, hbuiltins] at hbuiltin
    exact absurd hbuiltin (by decide)
  · rw [OrderedSet.mem_def, hvaryings] at hvarying
    exact absurd hvarying (by decide)

/-- The vertex of the two has two fields of the same name. -/
theorem field_names_of_shadowing :
    ∃ m, ((Query.wgsl "vs" .default).ask (Action.run shadowing)).1 = .ok m ∧
      ∃ s ∈ m.interface, s.name = vertexOutput ∧ ¬ (s.fields.map Member.name).Nodup := by
  have hnames : (((Query.wgsl "vs" .default).ask (Action.run shadowing)).1).toOption.map
      (fun m ↦ m.interface.map fun s ↦ (s.name, s.fields.map Member.name)) =
        some [("VertexOutput", ["position", "position", "frag_coord"])] := by
    decide +kernel
  obtain ⟨m, hm, hnames⟩ := Option.map_eq_some_iff.mp hnames
  obtain ⟨s, hinterface, hs⟩ := List.map_eq_singleton_iff.mp hnames
  obtain ⟨hname, hfields⟩ := Prod.mk.inj hs
  refine ⟨m, eq_ok_of_toOption hm, s, ?_, hname, ?_⟩
  · rw [hinterface]
    exact List.mem_singleton_self s
  · rw [hfields]
    decide

/-! ### Resources -/

/-- A resource has the name of the sampler object of a filtered texture. -/
def ResourceClash (d : Declarations) (u : Usage) (n : String) : Prop :=
  (n ∈ u.uniforms ∨ n ∈ u.uniformStructs ∨ n ∈ u.samplers) ∧
    ∃ texture ∈ u.samplers, n = samplerObject texture ∧
      ∃ decl, d.samplers.get? texture = some decl ∧ decl.kind.isPaired = true

theorem name_symbol (r : Resource) : r.symbol.name = r.name := by
  unfold Resource.symbol
  split <;> rfl

theorem perm_names_resources (hu : e.usage.Declared e.decls) {rs : List Resource}
    (h : resources e = .ok rs) :
    (rs.map Resource.name).Perm (objectNames e ++ e.usage.names .resource) := by
  have hperm := (perm_symbols_resources hu h).map Symbol.name
  rw [List.map_map, List.map_append, List.map_map, List.map_map] at hperm
  have hsymbol : Symbol.name ∘ Resource.symbol = Resource.name := funext name_symbol
  have hname : ∀ k, Symbol.name ∘ Symbol.mk k = id := fun _ ↦ rfl
  rw [hsymbol, hname, hname, List.map_id, List.map_id] at hperm
  exact hperm.trans List.perm_append_comm

theorem mem_objectNames (hu : e.usage.Declared e.decls)
    (hobject : ∀ n ∈ e.usage.samplers, ∀ decl, e.decls.samplers.get? n = some decl →
      ((e.layout.sampler? n).bind (·.object)).isSome = decl.kind.isPaired) {n : String} :
    n ∈ objectNames e ↔ ∃ texture ∈ e.usage.samplers, n = samplerObject texture ∧
      ∃ decl, e.decls.samplers.get? texture = some decl ∧ decl.kind.isPaired = true := by
  rw [objectNames, List.mem_map]
  constructor
  · rintro ⟨texture, htexture, rfl⟩
    obtain ⟨a, ha, hfiltered⟩ := List.mem_filterMap.mp htexture
    obtain ⟨rfl, hsome⟩ := filtered?_eq_some.mp hfiltered
    have hused := (mem_bindings_sampler hu).mp ha
    obtain ⟨decl, hdecl⟩ := Table.exists_get? (hu.samplers texture hused)
    exact ⟨texture, hused, rfl, decl, hdecl, (hobject texture hused decl hdecl).symm.trans hsome⟩
  · rintro ⟨texture, hused, rfl, decl, hdecl, hpaired⟩
    refine ⟨texture, List.mem_filterMap.mpr ⟨.sampler texture,
      (mem_bindings_sampler hu).mpr hused, ?_⟩, rfl⟩
    exact filtered?_eq_some.mpr ⟨rfl, (hobject texture hused decl hdecl).trans hpaired⟩

/-- The names of resources are distinct unless a used resource has the name of the sampler object of
a used texture. -/
theorem resource_names_distinct_but (p : Program) (hp : p.Reachable) (name : String) (o : Options)
    (m : Module) (h : ((Query.wgsl name o).ask p).1 = .ok m) :
    ∃ u, ((Query.usage name).ask p).1 = .ok u ∧
      DistinctBut (ResourceClash p.toDeclarations u) (m.resources.map Resource.name) := by
  rw [(Query.answers_wgsl name o).ask_eq] at h
  obtain ⟨e, he, hemit⟩ := bind_eq_ok.mp h
  obtain ⟨hdecls, -, husage, -, hu⟩ := hp.emission he
  have hdeclared := Usage.declared_of_eq_ok hu
  rw [← hdecls] at hdeclared ⊢
  obtain ⟨-, hresources, -, -⟩ := emit_eq_ok hemit
  refine ⟨e.usage, ((Query.answers_usage name).ask_eq p).trans husage,
    distinctBut_of_perm _ (perm_names_resources hdeclared hresources) (nodup_objectNames e)
      (Usage.nodup_names (hdecls ▸ hp.sound.apart) hdeclared .resource) ?_⟩
  intro n
  rw [mem_objectNames hdeclared fun n hn decl ↦ hp.isSome_object he hn, ResourceClash, and_comm,
    Usage.mem_names_resource hdeclared]

/-- Two textures, one of them without a sampler object, and uniforms with the names that their
sampler objects would have.  One entry point uses the uniform beside the filtered texture. -/
def crossed : List Action :=
  let plane := Ty.ofPrim (.vector .float .two)
  let grid := Ty.ofPrim (.vector .int .two)
  let depth := Term.sample .depth "shadow" (.ofHandle grid (.uniform "shadow_sampler"))
  [.sampler "image" .plane ⟨0, none⟩, .sampler "shadow" .depth ⟨0, none⟩,
    .uniform "image_sampler" plane ⟨0, none⟩, .uniform "shadow_sampler" grid ⟨0, none⟩,
    .varying "uv" ⟨plane, none, none, none⟩,
    .entry "dim" .fragment (Recorder.leave
      (.sample .plane "image" (.arithmetic .mul (.ofHandle plane (.varying "uv")) depth))),
    .entry "plain" .fragment (Recorder.leave
      (.sample .plane "image" (.ofHandle plane (.uniform "image_sampler"))))]

/-- The entry point without that uniform has no clash. -/
theorem resource_names_distinct_but_crossed :
    ∃ m, ((Query.wgsl "dim" .default).ask (Action.run crossed)).1 = .ok m ∧
      m.resources.map Resource.name = ["image", "image_sampler", "shadow", "shadow_sampler"] ∧
      (m.resources.map Resource.name).Nodup := by
  have hnames : (((Query.wgsl "dim" .default).ask (Action.run crossed)).1).toOption.map
      (fun m ↦ m.resources.map Resource.name) =
        some ["image", "image_sampler", "shadow", "shadow_sampler"] := by
    decide +kernel
  have hused : (((Query.usage "dim").ask (Action.run crossed)).1).toOption.map
      (fun u ↦ (u.uniforms.toList, u.uniformStructs.toList, u.samplers.toList)) =
        some (["shadow_sampler"], [], ["image", "shadow"]) := by
    decide +kernel
  have hshadow : ((Action.run crossed).samplers.get? "shadow").map (·.kind) = some .depth := by
    decide +kernel
  obtain ⟨m, hm, hnames⟩ := Option.map_eq_some_iff.mp hnames
  obtain ⟨u, hu, hdistinct⟩ := resource_names_distinct_but _ (Action.reachable_run crossed) "dim"
    .default m (eq_ok_of_toOption hm)
  rw [hu] at hused
  have hused := Option.some.inj hused
  simp only [Prod.mk.injEq] at hused
  obtain ⟨huniforms, hstructs, hsamplers⟩ := hused
  refine ⟨m, eq_ok_of_toOption hm, hnames, hdistinct.nodup_iff.mpr ?_⟩
  rintro n ⟨hgiven, texture, htexture, rfl, decl, hdecl, hpaired⟩
  rw [OrderedSet.mem_def, hsamplers] at htexture
  simp only [OrderedSet.mem_def, huniforms, hstructs, hsamplers] at hgiven
  rcases List.mem_pair.mp htexture with rfl | rfl
  · exact absurd hgiven (by decide)
  · rw [hdecl] at hshadow
    have hkind : decl.kind = .depth := Option.some.inj hshadow
    rw [hkind] at hpaired
    cases hpaired

/-- The other one declares a name twice. -/
theorem resource_names_of_crossed :
    ∃ m, ((Query.wgsl "plain" .default).ask (Action.run crossed)).1 = .ok m ∧
      ¬ (m.resources.map Resource.name).Nodup := by
  have hnames : (((Query.wgsl "plain" .default).ask (Action.run crossed)).1).toOption.map
      (fun m ↦ m.resources.map Resource.name) =
        some ["image", "image_sampler", "image_sampler"] := by
    decide +kernel
  obtain ⟨m, hm, hnames⟩ := Option.map_eq_some_iff.mp hnames
  refine ⟨m, eq_ok_of_toOption hm, ?_⟩
  rw [hnames]
  decide

end Shading.Wgsl

namespace Shading

/-! ### Globals of a shader -/

namespace Usage

/-- The names that an author gave to what an entry point uses. -/
def givenNames (u : Usage) : List String :=
  u.attributes.toList ++ u.varyings.toList ++ u.outputs.toList ++
    (u.uniforms.toList ++ u.uniformStructs.toList ++ u.samplers.toList) ++ u.helpers.toList

/-- Given names that differ from each other, from those of constants and of the entry function, and
from those that the language reserves. -/
structure GivenApart (u : Usage) : Prop where
  nodup : u.givenNames.Nodup
  constant : ∀ n ∈ u.givenNames, ∀ rest, n ≠ "glob_" ++ rest
  reserved : ∀ n ∈ u.givenNames, ∀ rest, n ≠ "gl_" ++ rest
  main : "main" ∉ u.givenNames

variable {u : Usage} {d : Declarations}

theorem perm_names_resource (hd : d.NamesApart) (hu : u.Declared d)
    (hgiven : u.givenNames.Nodup) : (u.names .resource).Perm
      (u.uniforms.toList ++ u.uniformStructs.toList ++ u.samplers.toList) := by
  have hsublist : (u.uniforms.toList ++ u.uniformStructs.toList ++ u.samplers.toList).Sublist
      u.givenNames :=
    (List.sublist_append_right _ _).trans (List.sublist_append_left _ _)
  rw [List.perm_ext_iff_of_nodup (nodup_names hd hu .resource) (hgiven.sublist hsublist)]
  intro n
  rw [mem_names_resource hu, List.mem_append, List.mem_append, or_assoc]
  rfl

theorem names_symbols (u : Usage) : u.symbols.map Symbol.name =
    u.attributes.toList ++ (u.varyings.toList ++ (u.names .resource ++
      (u.names .constant ++ u.helpers.toList))) := by
  simp [symbols, Function.comp_def]
  rfl

theorem names_items (u : Usage) : (u.symbols.filter (·.kind ≠ .constant)).map Symbol.name =
    u.attributes.toList ++ (u.varyings.toList ++ (u.names .resource ++ u.helpers.toList)) := by
  simp [symbols, List.filter_map, Function.comp_def]
  rfl

end Usage

end Shading

namespace Shading.Glsl

variable {e : Emission} {s : Shader}

/-- Variables, instances of blocks and helpers. -/
def Shader.itemNames (s : Shader) : List String :=
  (s.symbols.filter (·.kind ≠ .constant)).map Symbol.name

/-- All names at the top of a shader, with its constants and its entry function. -/
def Shader.globalNames (s : Shader) : List String :=
  s.symbols.map Symbol.name ++ ["main"]

/-- A fragment that gives a colour and uses no output has an output made up for it. -/
def MakesColor (stage : Stage) (u : Usage) : Prop :=
  stage = .fragment ∧ u.outputs.toList = [] ∧ (u.returnsValue = true ∨ .fragColor ∈ u.builtins)

/-- Something has the name of the output that is made up. -/
def ColorClash (stage : Stage) (u : Usage) (n : String) : Prop :=
  n = "color" ∧ MakesColor stage u ∧ n ∈ u.givenNames

/-- Without a used output there is at most the one for the colour. -/
theorem outputs_of_eq_nil (hstage : e.stage = .fragment) (hnone : e.usage.outputs.toList = [])
    {gs : List Global} (h : outputs e .es300 = .ok gs) :
    gs = if e.usage.returnsValue || e.usesBuiltin .fragColor then [colorOutput] else [] := by
  have hempty : e.outputsByLocation = [] := by
    rw [Emission.outputsByLocation, hnone]
    rfl
  simp only [outputs, hstage, hempty] at h
  exact (Except.ok.inj h).symm

/-- The outputs of a shader are those that are used and the one that is made up. -/
theorem perm_outputs (hstage : Usage.StageOnly e.stage e.usage) {gs : List Global}
    (h : outputs e .es300 = .ok gs) :
    ∃ made : List String, made.Nodup ∧
      (∀ n, n ∈ made ↔ n = "color" ∧ MakesColor e.stage e.usage) ∧
      (gs.filterMap Global.symbol?).Perm ((made ++ e.usage.outputs.toList).map (.mk .output)) := by
  have hnothing : ¬ MakesColor e.stage e.usage →
      ∀ n, n ∈ ([] : List String) ↔ n = "color" ∧ MakesColor e.stage e.usage := by
    intro hcolor n
    simp [hcolor]
  by_cases hfragment : e.stage = .fragment
  · by_cases hnone : e.usage.outputs.toList = []
    · rw [outputs_of_eq_nil hfragment hnone h, hnone]
      cases hwritten : e.usage.returnsValue || e.usesBuiltin .fragColor with
      | true =>
          have hcolor : MakesColor e.stage e.usage := by
            refine ⟨hfragment, hnone, ?_⟩
            rwa [Bool.or_eq_true, Emission.usesBuiltin, decide_eq_true_eq] at hwritten
          refine ⟨["color"], List.nodup_singleton _, ?_, .refl _⟩
          intro n
          simp [hcolor]
      | false =>
          refine ⟨[], List.nodup_nil, hnothing ?_, .refl _⟩
          rintro ⟨-, -, hcolor⟩
          rw [Bool.or_eq_false_iff, Emission.usesBuiltin, decide_eq_false_iff_not] at hwritten
          rcases hcolor with hreturns | hbuiltin
          · cases hwritten.1.symm.trans hreturns
          · exact hwritten.2 hbuiltin
    · refine ⟨[], List.nodup_nil, hnothing fun hcolor ↦ hnone hcolor.2.1, ?_⟩
      rcases symbols_outputs h with hnames | ⟨-, hunused⟩
      · rcases e.outputNames_cases with ⟨hempty, -⟩ | ⟨-, hperm⟩
        · exact (hnone hempty).elim
        · rw [hnames]
          exact hperm.map _
      · exact (hnone (hunused hfragment rfl).1).elim
  · have hnone : e.usage.outputs.toList = [] := by
      apply List.eq_nil_iff_forall_not_mem.mpr
      intro n hn
      exact hfragment (hstage.outputs n hn)
    have hempty : gs = [] := by
      cases hvertex : e.stage with
      | fragment => exact (hfragment hvertex).elim
      | vertex =>
          simp only [outputs, hvertex] at h
          exact (Except.ok.inj h).symm
    rw [hnone, hempty]
    exact ⟨[], List.nodup_nil, hnothing fun hcolor ↦ hfragment hcolor.1, .refl _⟩

/-- What a shader declares has the names that are given, the one that is made up, and those of its
constants and its entry function. -/
theorem perm_names (h : Parts e .es300 s) (hu : Usage.of e.decls e.stage e.body = .ok e.usage)
    (hd : e.decls.NamesApart) (hgiven : e.usage.givenNames.Nodup) :
    ∃ made : List String, made.Nodup ∧
      (∀ n, n ∈ made ↔ n = "color" ∧ MakesColor e.stage e.usage) ∧
      s.itemNames.Perm (made ++ e.usage.givenNames) ∧
      s.globalNames.Perm
        (made ++ (e.usage.givenNames ++ (e.usage.names .constant ++ ["main"]))) := by
  obtain ⟨made, hmade, hmem, houtputs⟩ := perm_outputs (Usage.stageOnly_of_eq_ok hu) h.outputs
  have hresources := Usage.perm_names_resource hd (Usage.declared_of_eq_ok hu) hgiven
  have hsymbols := (inventory_of_parts h hu).perm.trans (houtputs.append_left _)
  refine ⟨made, hmade, hmem, ?_, ?_⟩
  · refine ((hsymbols.filter _).map _).trans ?_
    rw [List.filter_append, List.map_append, Usage.names_items, List.perm_iff_count]
    intro n
    have hcount := hresources.count_eq n
    simp only [List.filter_map, Function.comp_def, List.map_map, ne_eq, reduceCtorEq,
      not_false_eq_true, decide_true, List.filter_true, List.map_id', Usage.givenNames,
      List.count_append] at hcount ⊢
    omega
  · refine ((hsymbols.map _).append_right _).trans ?_
    rw [List.map_append, Usage.names_symbols, List.perm_iff_count]
    intro n
    have hcount := hresources.count_eq n
    simp only [Function.comp_def, List.map_map, List.map_id', Usage.givenNames,
      List.count_append] at hcount ⊢
    omega

theorem ne_append_of_start {n start : String} (h : ¬ start.toList <+: n.toList) (rest : String) :
    n ≠ start ++ rest := by
  rintro rfl
  rw [String.toList_append] at h
  exact h (List.prefix_append _ _)

/-- Only what starts as the names of constants do is the name of a constant. -/
theorem ne_text_constant {n : String} (h : ¬ "glob_".toList <+: n.toList) (i : Nat) :
    n ≠ (Handle.constant i).text :=
  ne_append_of_start h _

theorem text_constant_ne_reserved (i : Nat) (rest : String) :
    (Handle.constant i).text ≠ "gl_" ++ rest := by
  apply ne_append_of_start
  rw [Handle.toList_text_constant]
  simp

theorem nodup_givenNames_append {u : Usage} (hu : u.GivenApart) :
    (u.givenNames ++ (u.names .constant ++ ["main"])).Nodup := by
  have hconstants : (u.names .constant).Nodup :=
    u.constants.nodup.map Handle.text_constant_injective
  refine List.nodup_append'.mpr ⟨hu.nodup, List.nodup_append'.mpr
    ⟨hconstants, List.nodup_singleton _, ?_⟩, ?_⟩
  · intro n hn hmain
    obtain ⟨i, -, rfl⟩ := List.mem_map.mp hn
    exact ne_text_constant (by decide) i (List.mem_singleton.mp hmain).symm
  · intro n hn hn'
    rcases List.mem_append.mp hn' with hn' | hn'
    · obtain ⟨i, -, rfl⟩ := List.mem_map.mp hn'
      exact hu.constant _ hn _ rfl
    · obtain rfl := List.mem_singleton.mp hn'
      exact hu.main hn

/-- The colour is no name of a constant or of the entry function. -/
theorem color_notMem (u : Usage) : "color" ∉ u.names .constant ++ ["main"] := by
  intro h
  rcases List.mem_append.mp h with h | h
  · obtain ⟨i, -, hi⟩ := List.mem_map.mp h
    exact ne_text_constant (by decide) i hi.symm
  · exact absurd h (by decide)

/-- If the names that an author gave are apart, then so are those in a shader of version 3.00,
unless one of them is that of the output which is made up for the colour.  This holds for variables,
instances of blocks and helpers, and also with constants and the entry function.  None of them is
reserved. -/
theorem global_names_distinct_but (p : Program) (hp : p.Reachable) (name : String) (u : Usage)
    (hu : ((Query.usage name).ask p).1 = .ok u) (hgiven : u.GivenApart) (o : Options)
    (hv : o.version = .es300) (s : Shader) (h : ((Query.glsl name o).ask p).1 = .ok s) :
    ∃ stage, p.stageOf name = .ok stage ∧ DistinctBut (ColorClash stage u) s.itemNames ∧
      DistinctBut (ColorClash stage u) s.globalNames ∧
      ∀ n ∈ s.globalNames, ∀ rest, n ≠ "gl_" ++ rest := by
  rw [(Query.answers_glsl name o).ask_eq] at h
  obtain ⟨e, he, hemit⟩ := bind_eq_ok.mp h
  obtain ⟨hdecls, hstage, husage, -, hof⟩ := hp.emission he
  obtain rfl : e.usage = u :=
    Except.ok.inj (husage.symm.trans (((Query.answers_usage name).ask_eq p).symm.trans hu))
  rw [← hdecls] at hof
  have hparts := parts_of_emit hemit
  rw [hv] at hparts
  obtain ⟨made, hmade, hmem, hitems, hglobals⟩ :=
    perm_names hparts hof (hdecls ▸ hp.sound.apart) hgiven.nodup
  refine ⟨e.stage, hstage, ?_, ?_, ?_⟩
  · refine distinctBut_of_perm made hitems hmade hgiven.nodup ?_
    intro n
    rw [hmem, ColorClash, and_assoc]
  · refine distinctBut_of_perm made hglobals hmade (nodup_givenNames_append hgiven) ?_
    intro n
    rw [hmem, ColorClash, and_assoc, List.mem_append]
    apply and_congr_right
    rintro rfl
    simp only [color_notMem, or_false]
  · intro n hn rest
    rcases List.mem_append.mp (hglobals.mem_iff.mp hn) with hn | hn
    · rw [((hmem n).mp hn).1]
      exact ne_append_of_start (by decide) rest
    · rcases List.mem_append.mp hn with hn | hn
      · exact hgiven.reserved n hn rest
      · rcases List.mem_append.mp hn with hn | hn
        · obtain ⟨i, -, rfl⟩ := List.mem_map.mp hn
          exact text_constant_ne_reserved i rest
        · rw [List.mem_singleton.mp hn]
          exact ne_append_of_start (by decide) rest

/-- Two fragments read a varying that is called as the output for the colour would be.  The first
one has an output of its own, and the second one returns what it reads. -/
def stained : List Action :=
  let vector := Ty.ofPrim (.vector .float .four)
  let plane := Ty.ofPrim (.vector .float .two)
  let color := Term.ofHandle vector (.varying "color")
  let texel := Term.sample .plane "image" (.ofHandle plane (.uniform "place"))
  [.uniform "gain" .float ⟨0, none⟩, .uniform "place" plane ⟨0, none⟩,
    .constant (.ofHandle .float (.uniform "gain")), .sampler "image" .plane ⟨0, none⟩,
    .varying "color" ⟨vector, none, none, none⟩, .output "albedo" vector none,
    .helper "soften" [vector] (return some (.arithmetic .mul (.ofHandle vector (.argument 0))
      (.ofHandle .float (.constant 0)))),
    .entry "lit" .fragment (Recorder.set (.ofHandle vector (.output "albedo"))
      (.call (.helper "soften") vector [.arithmetic .mul color texel])),
    .entry "flat" .fragment (Recorder.leave color)]

theorem givenApart_of_names {u : Usage} {names : List String} (hnames : u.givenNames = names)
    (hnodup : names.Nodup)
    (hstart : ∀ n ∈ names, ¬ "glob_".toList <+: n.toList ∧ ¬ "gl_".toList <+: n.toList)
    (hmain : "main" ∉ names) : u.GivenApart := by
  subst hnames
  refine ⟨hnodup, fun n hn ↦ ?_, fun n hn ↦ ?_, hmain⟩
  · exact ne_append_of_start (hstart n hn).1
  · exact ne_append_of_start (hstart n hn).2

/-- The fragment with an output has distinct names. -/
theorem global_names_distinct_but_stained :
    ∃ u s, ((Query.usage "lit").ask (Action.run stained)).1 = .ok u ∧ u.GivenApart ∧
      ((Query.glsl "lit" .default).ask (Action.run stained)).1 = .ok s ∧
      s.globalNames = ["color", "albedo", "image", "place", "gain", "glob_0", "soften", "main"] ∧
      s.globalNames.Nodup := by
  have hused : (((Query.usage "lit").ask (Action.run stained)).1).toOption.map
      (fun u ↦ (u.givenNames, u.outputs.toList)) =
        some (["color", "albedo", "place", "gain", "image", "soften"], ["albedo"]) := by
    decide +kernel
  have hnames : (((Query.glsl "lit" .default).ask (Action.run stained)).1).toOption.map
      Shader.globalNames =
        some ["color", "albedo", "image", "place", "gain", "glob_0", "soften", "main"] := by
    decide +kernel
  obtain ⟨u, hu, hused⟩ := Option.map_eq_some_iff.mp hused
  obtain ⟨hgiven, houtputs⟩ := Prod.mk.inj hused
  obtain ⟨s, hs, hnames⟩ := Option.map_eq_some_iff.mp hnames
  have hapart := givenApart_of_names hgiven (by decide) (by decide) (by decide)
  obtain ⟨stage, -, -, hdistinct, -⟩ := global_names_distinct_but _ (Action.reachable_run stained)
    "lit" u (eq_ok_of_toOption hu) hapart .default rfl s (eq_ok_of_toOption hs)
  refine ⟨u, s, eq_ok_of_toOption hu, hapart, eq_ok_of_toOption hs, hnames,
    hdistinct.nodup_iff.mpr ?_⟩
  rintro n ⟨-, ⟨-, hnone, -⟩, -⟩
  cases houtputs.symm.trans hnone

/-- The other one has an input and an output of the same name. -/
theorem item_names_of_stained :
    ∃ u s, ((Query.usage "flat").ask (Action.run stained)).1 = .ok u ∧ u.GivenApart ∧
      ((Query.glsl "flat" .default).ask (Action.run stained)).1 = .ok s ∧
      ¬ s.itemNames.Nodup := by
  have hused : (((Query.usage "flat").ask (Action.run stained)).1).toOption.map
      (fun u ↦ u.givenNames) = some ["color"] := by
    decide +kernel
  have hnames : (((Query.glsl "flat" .default).ask (Action.run stained)).1).toOption.map
      Shader.itemNames = some ["color", "color"] := by
    decide +kernel
  obtain ⟨u, hu, hgiven⟩ := Option.map_eq_some_iff.mp hused
  obtain ⟨s, hs, hnames⟩ := Option.map_eq_some_iff.mp hnames
  refine ⟨u, s, eq_ok_of_toOption hu,
    givenApart_of_names hgiven (by decide) (by decide) (by decide), eq_ok_of_toOption hs, ?_⟩
  rw [hnames]
  decide

end Shading.Glsl
