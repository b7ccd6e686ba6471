import Shading.Proofs.Layout.Sides
import Shading.Proofs.Wgsl.Interface

/-!
# Linking

A vertex and a fragment entry point are emitted apart from each other, each with the other one as
its peer.  Both get the same layout, and the layout keeps the resources of both sides apart, so that
the two modules agree on what they share and collide nowhere.
-/

namespace Shading.Layout

/-! ### Layouts that keep resources apart -/

structure Separate (l : Layout) : Prop where
  varyings : ∀ {n m i}, l.varying? n = some i → l.varying? m = some i → n = m
  resources : ∀ {n m s t point}, Has l n s → Has l m t → point ∈ s.points → point ∈ t.points →
    n = m
  points : ∀ {n s}, Has l n s → s.points.Nodup

theorem Assigned.eq_of_mem_points {requests : List BindingRequest} {slots : List (String × Slots)}
    (h : Assigned requests slots) {x y : String × Slots} (hx : x ∈ slots) (hy : y ∈ slots)
    {point : Nat × Nat} (hpx : point ∈ x.2.points) (hpy : point ∈ y.2.points) : x = y := by
  by_contra hne
  have hpairs := (List.nodup_flatMap.mp h.nodup).2
  have hsymm : Std.Symm (Function.onFun List.Disjoint fun x : String × Slots ↦ x.2.points) :=
    ⟨fun _ _ hxy ↦ hxy.symm⟩
  exact hpairs.forall hx hy hne hpx hpy

variable {p : Program} {v f : String} {uv uf : Usage} {l : Layout}

theorem separate_of_layout (hp : p.Reachable) (hv : Uses p .vertex v uv)
    (hf : Uses p .fragment f uf) (hl : allocate p.toDeclarations (some uv) (some uf) = .ok l) :
    Separate l := by
  have hallocated := allocated_of_eq_ok hl
  have hvaryings := located_of_allocateLocations (nodup_bothSides _ _ _) hallocated.varyings
  obtain ⟨requests', hrequests', hnames, -⟩ := (Sides.vertexWith hv hf).exists_requests hp
  obtain ⟨requests, slots, hrequests, hslots, huniforms, hsamplers⟩ := hallocated.bindings
  obtain rfl : requests' = requests := Except.ok.inj (hrequests'.symm.trans hrequests)
  have hassigned := assigned_of_allocateBindings hnames hslots
  have hmem : ∀ {n s}, Has l n s → (n, s) ∈ slots :=
    (has_iff_mem huniforms hsamplers (hassigned.names ▸ hnames)).mp
  refine ⟨hvaryings.distinct, ?_, ?_⟩
  · intro n m s t point hn hm hs ht
    exact (Prod.mk.inj (hassigned.eq_of_mem_points (hmem hn) (hmem hm) hs ht)).1
  · intro n s hn
    exact (List.nodup_flatMap.mp hassigned.nodup).1 _ (hmem hn)

end Shading.Layout

namespace Shading.Wgsl

variable {d : Declarations} {l : Layout}

/-! ### Resources that are apart -/

theorem Shows.bound {a : Handle} {r : Resource} (h : Shows d l a r) : Layout.Bound d a := by
  cases h with
  | uniform hdecl => exact .uniform (Table.contains_of_get? hdecl)
  | uniformStruct hdecl => exact .uniformStruct (Table.contains_of_get? hdecl)
  | texture hdecl => exact .sampler (Table.contains_of_get? hdecl)
  | samplerObject hdecl => exact .sampler (Table.contains_of_get? hdecl)

theorem Shows.has {a : Handle} {r : Resource} (h : Shows d l a r) :
    ∃ s, Layout.Has l a.text s ∧ (r.group, r.index) ∈ s.points := by
  cases h with
  | uniform _ hpoint => exact ⟨_, .buffer hpoint, List.mem_singleton_self _⟩
  | uniformStruct _ hpoint => exact ⟨_, .buffer hpoint, List.mem_singleton_self _⟩
  | texture _ hslots => exact ⟨_, .texture hslots, List.mem_cons_self⟩
  | samplerObject _ hslots hi =>
      refine ⟨_, .texture hslots, List.mem_cons_of_mem _ ?_⟩
      rw [hi]
      exact List.mem_singleton_self _

theorem kind_texture (group index : Nat) (name : String) (kind : SamplerKind) :
    Resource.kind ⟨group, index, false, name, .named (textureType kind)⟩ = .texture := by
  cases kind <;> rfl

theorem Shows.of_buffer {a : Handle} {r : Resource} (h : Shows d l a r) (hkind : r.kind = .buffer) :
    (a = .uniform r.name ∨ a = .uniformStruct r.name) ∧
      l.uniform? r.name = some ⟨r.group, r.index⟩ := by
  cases h with
  | uniform _ hpoint => exact ⟨.inl rfl, hpoint⟩
  | uniformStruct _ hpoint => exact ⟨.inr rfl, hpoint⟩
  | texture =>
      rw [kind_texture] at hkind
      cases hkind
  | samplerObject => cases hkind

theorem Shows.of_texture {a : Handle} {r : Resource} (h : Shows d l a r)
    (hkind : r.kind = .texture) : a = .sampler r.name ∧
      ∃ slots, l.sampler? r.name = some slots ∧ slots.group = r.group ∧
        slots.texture = r.index := by
  cases h with
  | texture _ hslots => exact ⟨rfl, _, hslots, rfl, rfl⟩
  | _ => cases hkind

theorem Shows.of_samplerObject {a : Handle} {r : Resource} (h : Shows d l a r)
    (hkind : r.kind = .samplerObject) :
    ∃ n slots, r.name = Wgsl.samplerObject n ∧ l.sampler? n = some slots ∧
      slots.group = r.group ∧ slots.object = some r.index := by
  cases h with
  | texture =>
      rw [kind_texture] at hkind
      cases hkind
  | samplerObject _ hslots hi => exact ⟨_, _, rfl, hslots, rfl, hi⟩
  | _ => cases hkind

/-- The name tells what a resource is for. -/
theorem Shows.name_eq {a : Handle} {r : Resource} (h : Shows d l a r) :
    r.name = if r.kind = .samplerObject then Wgsl.samplerObject a.text else a.text := by
  cases h with
  | uniform => rfl
  | uniformStruct => rfl
  | texture =>
      rw [kind_texture]
      rfl
  | samplerObject => rfl

theorem Shows.eq_of_kind {a : Handle} {r r' : Resource} (h : Shows d l a r) (h' : Shows d l a r')
    (hkind : r.kind = r'.kind) : r = r' := by
  cases h with
  | uniform hdecl hpoint =>
      cases h' with
      | uniform hdecl' hpoint' =>
          cases hdecl.symm.trans hdecl'
          cases hpoint.symm.trans hpoint'
          rfl
  | uniformStruct hdecl hpoint =>
      cases h' with
      | uniformStruct hdecl' hpoint' =>
          cases hdecl.symm.trans hdecl'
          cases hpoint.symm.trans hpoint'
          rfl
  | texture hdecl hslots =>
      cases h' with
      | texture hdecl' hslots' =>
          cases hdecl.symm.trans hdecl'
          cases hslots.symm.trans hslots'
          rfl
      | samplerObject =>
          rw [kind_texture] at hkind
          cases hkind
  | samplerObject hdecl hslots hi =>
      cases h' with
      | texture =>
          rw [kind_texture] at hkind
          cases hkind
      | samplerObject hdecl' hslots' hi' =>
          cases hslots.symm.trans hslots'
          cases hi.symm.trans hi'
          rfl

theorem Shows.eq_of_name (hd : d.NamesApart) {a b : Handle} {r r' : Resource}
    (h : Shows d l a r) (h' : Shows d l b r') (hkind : r.kind = r'.kind)
    (hname : r.name = r'.name) : r = r' := by
  have htext : a.text = b.text := by
    rw [h.name_eq, h'.name_eq, hkind] at hname
    split at hname
    · exact (String.append_left_inj _).mp hname
    · exact hname
  obtain rfl : a = b := h.bound.eq_of_text hd h'.bound htext
  exact h.eq_of_kind h' hkind

theorem Shows.eq_of_slot (hd : d.NamesApart) (hl : l.Separate) {a b : Handle} {r r' : Resource}
    (h : Shows d l a r) (h' : Shows d l b r') (hgroup : r.group = r'.group)
    (hindex : r.index = r'.index) : r = r' := by
  obtain ⟨s, hs, hpoint⟩ := h.has
  obtain ⟨t, ht, hpoint'⟩ := h'.has
  rw [← hgroup, ← hindex] at hpoint'
  have htext : a.text = b.text := hl.resources hs ht hpoint hpoint'
  obtain rfl : a = b := h.bound.eq_of_text hd h'.bound htext
  apply h.eq_of_kind h'
  -- A texture and its own sampler object are the only two resources of one handle.
  have hobject : ∀ {n : String} {slots : SamplerSlots} {i : Nat},
      l.sampler? n = some slots → slots.object = some i → slots.texture ≠ i := by
    intro n slots i hslots hi htexture
    have hnodup := hl.points (.texture hslots)
    rw [Layout.Slots.points, hi, htexture] at hnodup
    exact (List.nodup_cons.mp hnodup).1 List.mem_cons_self
  cases h with
  | uniform =>
      cases h' with
      | uniform => rfl
  | uniformStruct =>
      cases h' with
      | uniformStruct => rfl
  | texture _ hslots =>
      cases h' with
      | texture => rw [kind_texture, kind_texture]
      | samplerObject _ hslots' hi =>
          cases hslots.symm.trans hslots'
          exact (hobject hslots hi hindex).elim
  | samplerObject _ hslots hi =>
      cases h' with
      | texture _ hslots' =>
          cases hslots.symm.trans hslots'
          exact (hobject hslots hi hindex.symm).elim
      | samplerObject => rfl

/-! ### Modules that follow a layout -/

/-- A module declares what an entry point uses, with the numbers of a layout. -/
structure Follows (u : Usage) (l : Layout) (m : Module) : Prop where
  interface : ∀ s ∈ m.interface,
    s.name = vertexOutput ∨ s.name = fragmentInputName ∨ s.name = fragmentOut
  structs : ∀ s ∈ m.structs, ∀ a ∈ s.fields, a.attributes = []
  varyings : ∀ a ∈ m.varyings, a.location? = l.varying? a.name
  attributes : ∀ a ∈ m.entry.params, ∀ i, a.location? = some i → l.attribute? a.name = some i
  outputs : ∀ a ∈ m.fieldsOf fragmentOut,
    (∃ i, a.location? = some i ∧ l.output? a.name = some i) ∨ l.outputs = [] ∧ a = colorField
  buffers : ∀ r ∈ m.resources, r.kind = .buffer → l.uniform? r.name = some ⟨r.group, r.index⟩
  textures : ∀ r ∈ m.resources, r.kind = .texture →
    ∃ slots, l.sampler? r.name = some slots ∧ slots.group = r.group ∧ slots.texture = r.index
  samplerObjects : ∀ r ∈ m.resources, r.kind = .samplerObject →
    ∃ n slots, r.name = samplerObject n ∧ l.sampler? n = some slots ∧ slots.group = r.group ∧
      slots.object = some r.index
  usedVaryings : ∀ n, (∃ a ∈ m.varyings, a.name = n) ↔ n ∈ u.varyings
  usedBuffers : ∀ n, (∃ r ∈ m.resources, r.kind = .buffer ∧ r.name = n) ↔
    n ∈ u.uniforms ∨ n ∈ u.uniformStructs
  usedTextures : ∀ n, (∃ r ∈ m.resources, r.kind = .texture ∧ r.name = n) ↔ n ∈ u.samplers

variable {e : Emission} {o : Options} {m : Module}

theorem attributes_structs {ss : List Struct} (h : structs e = .ok ss) {s : Struct} (hs : s ∈ ss)
    {a : Member} (ha : a ∈ s.fields) : a.attributes = [] := by
  obtain ⟨used, -, h⟩ := bind_eq_ok.mp h
  cases h
  obtain ⟨definition, -, rfl⟩ := List.mem_map.mp hs
  obtain ⟨field, -, rfl⟩ := List.mem_map.mp ha
  cases field with
  | value => rfl
  | nested => rfl

theorem mem_bindings_uniform {u : Usage} (hu : u.Declared d) {n : String} :
    .uniform n ∈ u.bindings ↔ n ∈ u.uniforms := by
  rw [hu.bindings]
  simp

theorem mem_bindings_uniformStruct {u : Usage} (hu : u.Declared d) {n : String} :
    .uniformStruct n ∈ u.bindings ↔ n ∈ u.uniformStructs := by
  rw [hu.bindings]
  simp

theorem mem_bindings_sampler {u : Usage} (hu : u.Declared d) {n : String} :
    .sampler n ∈ u.bindings ↔ n ∈ u.samplers := by
  rw [hu.bindings]
  simp

theorem exists_buffer {rs : List Resource} (h : resources e = .ok rs) {a : Handle}
    (ha : a ∈ e.usage.bindings) {n : String} (hn : a = .uniform n ∨ a = .uniformStruct n) :
    ∃ r ∈ rs, r.kind = .buffer ∧ r.name = n := by
  obtain ⟨lists, hlists, -⟩ := bind_eq_ok.mp h
  obtain ⟨rs', -, hrs⟩ := exists_mem_of_mem_mapM hlists ha
  rcases hn with rfl | rfl
  · obtain ⟨decl, hdecl, hrs⟩ := bind_eq_ok.mp hrs
    obtain ⟨point, hpoint, -⟩ := bind_eq_ok.mp hrs
    exact ⟨_, (mem_resources h).mpr ⟨_, ha, .uniform (Declarations.find_eq_ok.mp hdecl)
      (uniformPoint_eq_ok.mp hpoint)⟩, rfl, rfl⟩
  · obtain ⟨decl, hdecl, hrs⟩ := bind_eq_ok.mp hrs
    obtain ⟨point, hpoint, -⟩ := bind_eq_ok.mp hrs
    exact ⟨_, (mem_resources h).mpr ⟨_, ha, .uniformStruct (Declarations.find_eq_ok.mp hdecl)
      (uniformPoint_eq_ok.mp hpoint)⟩, rfl, rfl⟩

theorem exists_texture {rs : List Resource} (h : resources e = .ok rs) {n : String}
    (ha : .sampler n ∈ e.usage.bindings) : ∃ r ∈ rs, r.kind = .texture ∧ r.name = n := by
  obtain ⟨lists, hlists, -⟩ := bind_eq_ok.mp h
  obtain ⟨rs', -, hrs⟩ := exists_mem_of_mem_mapM hlists ha
  obtain ⟨decl, hdecl, hrs⟩ := bind_eq_ok.mp hrs
  obtain ⟨slots, hslots, -⟩ := bind_eq_ok.mp hrs
  exact ⟨_, (mem_resources h).mpr ⟨_, ha, .texture (Declarations.find_eq_ok.mp hdecl)
    (samplerSlots_eq_ok.mp hslots)⟩, kind_texture .., rfl⟩

theorem follows_of_emit (he : Placed e) (hu : e.usage.Declared e.decls) (h : emit e o = .ok m) :
    Follows e.usage e.layout m := by
  obtain ⟨hstructs, hresources, hinterface, hparams⟩ := emit_eq_ok h
  constructor
  case interface =>
      intro s hs
      cases carries_of_mem hinterface hs with
      | vertexOutput => exact .inl rfl
      | fragmentInput => exact .inr (.inl rfl)
      | fragmentOut => exact .inr (.inr rfl)
  case structs =>
      intro s hs a ha
      exact attributes_structs hstructs hs ha
  case varyings =>
      intro a ha
      obtain ⟨i, hi, hlayout⟩ := ((mem_varyings_iff he hinterface).mp ha).2.location?
      rw [hi, hlayout]
  case attributes =>
      intro a ha i hi
      exact location?_params he hparams ha hi
  case outputs =>
      intro a ha
      exact location?_outputs he hinterface ha
  case buffers =>
      intro r hr hkind
      obtain ⟨a, -, hshows⟩ := (mem_resources hresources).mp hr
      exact (hshows.of_buffer hkind).2
  case textures =>
      intro r hr hkind
      obtain ⟨a, -, hshows⟩ := (mem_resources hresources).mp hr
      exact (hshows.of_texture hkind).2
  case samplerObjects =>
      intro r hr hkind
      obtain ⟨a, -, hshows⟩ := (mem_resources hresources).mp hr
      exact hshows.of_samplerObject hkind
  case usedVaryings =>
      intro n
      constructor
      · rintro ⟨a, ha, rfl⟩
        exact ((mem_varyings_iff he hinterface).mp ha).1
      · intro hn
        obtain ⟨decl, hdecl⟩ := Table.exists_get? (hu.varyings n hn)
        obtain ⟨i, hi⟩ := he.varyings n hn
        exact ⟨_, (mem_varyings_iff he hinterface).mpr ⟨hn, .intro hdecl hi⟩, rfl⟩
  case usedBuffers =>
      intro n
      constructor
      · rintro ⟨r, hr, hkind, rfl⟩
        obtain ⟨a, ha, hshows⟩ := (mem_resources hresources).mp hr
        rcases (hshows.of_buffer hkind).1 with rfl | rfl
        · exact .inl ((mem_bindings_uniform hu).mp ha)
        · exact .inr ((mem_bindings_uniformStruct hu).mp ha)
      · rintro (hn | hn)
        · exact exists_buffer hresources ((mem_bindings_uniform hu).mpr hn) (.inl rfl)
        · exact exists_buffer hresources ((mem_bindings_uniformStruct hu).mpr hn) (.inr rfl)
  case usedTextures =>
      intro n
      constructor
      · rintro ⟨r, hr, hkind, rfl⟩
        obtain ⟨a, ha, hshows⟩ := (mem_resources hresources).mp hr
        obtain ⟨rfl, -⟩ := hshows.of_texture hkind
        exact (mem_bindings_sampler hu).mp ha
      · intro hn
        exact exists_texture hresources ((mem_bindings_sampler hu).mpr hn)

/-! ### Peers -/

open Layout (Uses Sides Allocated allocate textured)

theorem placed_of_allocated {vertex fragment : Usage}
    (h : Allocated e.decls (some vertex) (some fragment) e.layout)
    (hside : e.stage = .vertex ∧ e.usage = vertex ∨ e.stage = .fragment ∧ e.usage = fragment) :
    Placed e := by
  have hattributes := Layout.located_of_allocateLocations vertex.attributes.nodup h.attributes
  have hvaryings := Layout.located_of_allocateLocations (Layout.nodup_bothSides _ _ _) h.varyings
  have houtputs := Layout.located_of_allocateLocations fragment.outputs.nodup h.outputs
  refine ⟨fun n i ↦ hattributes.lookup_eq, ?_, ?_⟩
  · intro n hn
    apply hvaryings.exists_lookup
    rw [Layout.mem_bothSides]
    rcases hside with ⟨-, rfl⟩ | ⟨-, rfl⟩
    · exact .inl ⟨_, rfl, hn⟩
    · exact .inr ⟨_, rfl, hn⟩
  · intro hstage
    rcases hside with ⟨hvertex, -⟩ | ⟨-, rfl⟩
    · cases hvertex.symm.trans hstage
    · exact houtputs

theorem ask_wgsl_eq_ok {p : Program} {stage : Stage} {name : String} {u : Usage}
    (hu : Uses p stage name u) (h : ((Query.wgsl name o).ask p).1 = .ok m) :
    ∃ body l, ((Query.layout name o.peer).ask p).1 = .ok l ∧
      emit ⟨p.toDeclarations, name, stage, body, u, l⟩ o = .ok m := by
  rw [(Query.answers_wgsl name o).ask_eq] at h
  obtain ⟨e, he, h⟩ := bind_eq_ok.mp h
  obtain ⟨own, hown, he⟩ := bind_eq_ok.mp he
  obtain ⟨l, hl, he⟩ := bind_eq_ok.mp he
  obtain ⟨stage', hstage, he⟩ := bind_eq_ok.mp he
  obtain ⟨body, -, he⟩ := bind_eq_ok.mp he
  cases he
  cases hu.usageOf.symm.trans hown
  cases hu.stageOf.symm.trans hstage
  exact ⟨body, l, ((Query.answers_layout name o.peer).ask_eq p).trans hl, h⟩

/-- Two modules agree on what both declare, and nothing that either declares shares its place with
anything else. -/
structure Linked (vertex fragment : Module) : Prop where
  varying_eq : ∀ a ∈ vertex.varyings, ∀ b ∈ fragment.varyings, a.name = b.name → a = b
  resource_eq : ∀ r ∈ vertex.resources, ∀ s ∈ fragment.resources,
    r.kind = s.kind → r.name = s.name → r = s
  location_inj : ∀ a ∈ vertex.varyings ++ fragment.varyings,
    ∀ b ∈ vertex.varyings ++ fragment.varyings, a.location? = b.location? → a = b
  slot_inj : ∀ r ∈ vertex.resources ++ fragment.resources,
    ∀ s ∈ vertex.resources ++ fragment.resources, r.group = s.group → r.index = s.index → r = s

theorem linked_of_shows (hd : d.NamesApart) (hl : l.Separate) {vertex fragment : Module}
    (hvaryings : ∀ a ∈ vertex.varyings ++ fragment.varyings, ShowsVarying d l a)
    (hresources : ∀ r ∈ vertex.resources ++ fragment.resources, ∃ a, Shows d l a r) :
    Linked vertex fragment := by
  constructor
  case varying_eq =>
      intro a ha b hb hname
      exact (hvaryings a (List.mem_append_left _ ha)).eq_of_name
        (hvaryings b (List.mem_append_right _ hb)) hname
  case resource_eq =>
      intro r hr s hs hkind hname
      obtain ⟨a, ha⟩ := hresources r (List.mem_append_left _ hr)
      obtain ⟨b, hb⟩ := hresources s (List.mem_append_right _ hs)
      exact ha.eq_of_name hd hb hkind hname
  case location_inj =>
      intro a ha b hb hlocation
      obtain ⟨i, hi, hai⟩ := (hvaryings a ha).location?
      obtain ⟨j, hj, hbj⟩ := (hvaryings b hb).location?
      rw [hi, hj] at hlocation
      cases hlocation
      exact (hvaryings a ha).eq_of_name (hvaryings b hb) (hl.varyings hai hbj)
  case slot_inj =>
      intro r hr s hs hgroup hindex
      obtain ⟨a, ha⟩ := hresources r hr
      obtain ⟨b, hb⟩ := hresources s hs
      exact ha.eq_of_slot hd hl hb hgroup hindex

/-- In a reachable program, a vertex and a fragment entry point get the same layout with each other
as peers.  The modules emitted with it follow it and link. -/
theorem linked_of_reachable (p : Program) (hp : p.Reachable) (v f : String) (uv uf : Usage)
    (hv : Uses p .vertex v uv) (hf : Uses p .fragment f uf) :
    ((Query.layout v (some f)).ask p).1 = ((Query.layout f (some v)).ask p).1 ∧
    ∀ remapV remapF mv mf,
      ((Query.wgsl v ⟨remapV, some f⟩).ask p).1 = .ok mv →
      ((Query.wgsl f ⟨remapF, some v⟩).ask p).1 = .ok mf →
      ∃ l, ((Query.layout v (some f)).ask p).1 = .ok l ∧
        Follows uv l mv ∧ Follows uf l mf ∧ Linked mv mf := by
  have hlayoutV := (Sides.vertexWith hv hf).ask_layout
  have hlayoutF := (Sides.fragmentWith hf hv).ask_layout
  refine ⟨hlayoutV.trans hlayoutF.symm, ?_⟩
  intro remapV remapF mv mf hmv hmf
  obtain ⟨bodyV, l, hl, hemitV⟩ := ask_wgsl_eq_ok hv hmv
  obtain ⟨bodyF, l', hl', hemitF⟩ := ask_wgsl_eq_ok hf hmf
  obtain rfl : l = l' := Except.ok.inj <|
    hl.symm.trans (hlayoutV.trans (hlayoutF.symm.trans hl'))
  have hallocate := hlayoutV.symm.trans hl
  have hallocated := Layout.allocated_of_eq_ok hallocate
  have hplacedV := placed_of_allocated
    (e := ⟨p.toDeclarations, v, .vertex, bodyV, uv, l⟩) hallocated (.inl ⟨rfl, rfl⟩)
  have hplacedF := placed_of_allocated
    (e := ⟨p.toDeclarations, f, .fragment, bodyF, uf, l⟩) hallocated (.inr ⟨rfl, rfl⟩)
  refine ⟨l, hl, follows_of_emit hplacedV (hv.declared hp) hemitV,
    follows_of_emit hplacedF (hf.declared hp) hemitF, ?_⟩
  obtain ⟨-, hresourcesV, hinterfaceV, -⟩ := emit_eq_ok hemitV
  obtain ⟨-, hresourcesF, hinterfaceF, -⟩ := emit_eq_ok hemitF
  apply linked_of_shows hp.sound.apart (Layout.separate_of_layout hp hv hf hallocate)
  · intro a ha
    rcases List.mem_append.mp ha with ha | ha
    · exact ((mem_varyings_iff hplacedV hinterfaceV).mp ha).2
    · exact ((mem_varyings_iff hplacedF hinterfaceF).mp ha).2
  · intro r hr
    rcases List.mem_append.mp hr with hr | hr
    · obtain ⟨a, -, ha⟩ := (mem_resources hresourcesV).mp hr
      exact ⟨a, ha⟩
    · obtain ⟨a, -, ha⟩ := (mem_resources hresourcesF).mp hr
      exact ⟨a, ha⟩

/-- The locations of varyings, and the groups and bindings of resources. -/
def Module.places (m : Module) : List (String × List Nat) :=
  m.varyings.map (fun a ↦ (a.name, a.location?.toList)) ++
    m.resources.map fun r ↦ (r.name, [r.group, r.index])

/-- Both sides declare the varying and the uniform that they share, and the texture of one side
keeps clear of the uniform. -/
theorem linked_of_reachable_textured :
    ∃ uv uf mv mf, Uses (Action.run textured) .vertex "vs" uv ∧
      Uses (Action.run textured) .fragment "fs" uf ∧
      ((Query.wgsl "vs" ⟨true, some "fs"⟩).ask (Action.run textured)).1 = .ok mv ∧
      ((Query.wgsl "fs" ⟨false, some "vs"⟩).ask (Action.run textured)).1 = .ok mf ∧
      Linked mv mf ∧ mv.places = [("uv", [0]), ("offset", [0, 1])] ∧
      mf.places =
        [("uv", [0]), ("image", [0, 0]), ("image_sampler", [0, 2]), ("offset", [0, 1])] := by
  -- The modules themselves have no decidable equality.
  have hplaces : Except.toOption (do
      let mv ← ((Query.wgsl "vs" ⟨true, some "fs"⟩).ask (Action.run textured)).1
      let mf ← ((Query.wgsl "fs" ⟨false, some "vs"⟩).ask (Action.run textured)).1
      return (mv.places, mf.places)) =
        some ([("uv", [0]), ("offset", [0, 1])],
          [("uv", [0]), ("image", [0, 0]), ("image_sampler", [0, 2]), ("offset", [0, 1])]) := by
    decide +kernel
  obtain ⟨mv, hmv, hplaces⟩ := bind_eq_ok.mp (eq_ok_of_toOption hplaces)
  obtain ⟨mf, hmf, hplaces⟩ := bind_eq_ok.mp hplaces
  obtain ⟨hplacesV, hplacesF⟩ := Prod.mk.inj (Except.ok.inj hplaces)
  obtain ⟨uv, uf, hv, hf⟩ := Layout.uses_textured
  obtain ⟨-, hlink⟩ :=
    linked_of_reachable _ (Action.reachable_run textured) "vs" "fs" uv uf hv hf
  obtain ⟨l, -, -, -, hlinked⟩ := hlink true false mv mf hmv hmf
  exact ⟨uv, uf, mv, mf, hv, hf, hmv, hmf, hlinked, hplacesV, hplacesF⟩

end Shading.Wgsl
