import Shading.Proofs.Layout.Bindings
import Shading.Proofs.Program.Reachable

/-!
# Bindings of entry points

The requests of an entry point, alone or with its peer, are made for what is used on either side,
the vertex side first.  In a reachable program they all succeed, and different resources make them
under different names, so that bindings are handed out correctly.
-/

namespace Shading.Layout

/-! ### Sides -/

theorem mem_bothSides {α : Type} [DecidableEq α] {vertex fragment : Option Usage}
    {select : Usage → OrderedSet α} {a : α} : a ∈ bothSides vertex fragment select ↔
      (∃ u, vertex = some u ∧ a ∈ select u) ∨ ∃ u, fragment = some u ∧ a ∈ select u := by
  have hside : ∀ side : Option Usage, a ∈ (side.map select).getD .empty ↔
      ∃ u, side = some u ∧ a ∈ select u := by
    intro side
    cases side <;> simp
  rw [← hside, ← hside]
  exact OrderedSet.mem_union

theorem nodup_bothSides {α : Type} [DecidableEq α] (vertex fragment : Option Usage)
    (select : Usage → OrderedSet α) : (bothSides vertex fragment select).Nodup :=
  OrderedSet.nodup _

/-! ### Requests -/

/-- A declared resource with bindings. -/
inductive Bound (d : Declarations) : Handle → Prop
  | uniform {n : String} (h : d.uniforms.contains n = true) : Bound d (.uniform n)
  | uniformStruct {n : String} (h : d.uniformStructs.contains n = true) :
      Bound d (.uniformStruct n)
  | sampler {n : String} (h : d.samplers.contains n = true) : Bound d (.sampler n)

variable {d : Declarations}

theorem bound_of_declared {u : Usage} (hu : u.Declared d) {h : Handle} (hh : h ∈ u.bindings) :
    Bound d h := by
  rcases (hu.bindings h).mp hh with ⟨n, hn, rfl⟩ | ⟨n, hn, rfl⟩ | ⟨n, hn, rfl⟩
  · exact .uniform (hu.uniforms n hn)
  · exact .uniformStruct (hu.uniformStructs n hn)
  · exact .sampler (hu.samplers n hn)

/-- The name tells which resource it is. -/
theorem Bound.eq_of_text (hd : d.NamesApart) {a b : Handle} (ha : Bound d a) (hb : Bound d b)
    (h : a.text = b.text) : a = b := by
  cases ha with
  | @uniform n ha =>
      cases hb with
      | uniform hb => exact congrArg _ h
      | @uniformStruct m hb =>
          obtain rfl : n = m := h
          exact (hd.uniform_struct n ha hb).elim
      | @sampler m hb =>
          obtain rfl : n = m := h
          exact (hd.uniform_sampler n ha hb).elim
  | @uniformStruct n ha =>
      cases hb with
      | @uniform m hb =>
          obtain rfl : n = m := h
          exact (hd.uniform_struct n hb ha).elim
      | uniformStruct hb => exact congrArg _ h
      | @sampler m hb =>
          obtain rfl : n = m := h
          exact (hd.struct_sampler n ha hb).elim
  | @sampler n ha =>
      cases hb with
      | @uniform m hb =>
          obtain rfl : n = m := h
          exact (hd.uniform_sampler n hb ha).elim
      | @uniformStruct m hb =>
          obtain rfl : n = m := h
          exact (hd.struct_sampler n hb ha).elim
      | sampler hb => exact congrArg _ h

theorem Bound.exists_request {h : Handle} (hh : Bound d h) : ∃ r, requestOf d h = .ok r := by
  cases hh with
  | uniform hn =>
      obtain ⟨u, hu⟩ := Table.exists_get? hn
      exact ⟨_, by rw [requestOf, hu]; rfl⟩
  | uniformStruct hn =>
      obtain ⟨u, hu⟩ := Table.exists_get? hn
      exact ⟨_, by rw [requestOf, hu]; rfl⟩
  | sampler hn =>
      obtain ⟨s, hs⟩ := Table.exists_get? hn
      exact ⟨_, by rw [requestOf, hs]; rfl⟩

theorem bindingRequest_index_lt {name : String} {need : Need} {binding : Binding} {i : Nat}
    (h : (bindingRequest name need binding).index = some i) : i < indexLimit := by
  obtain ⟨index, -, rfl⟩ := Option.map_eq_some_iff.mp h
  exact index.toNat_lt

theorem requestOf_eq_ok {h : Handle} {r : BindingRequest} (hr : requestOf d h = .ok r) :
    r.name = h.text ∧ ∀ i, r.index = some i → i < indexLimit := by
  cases h with
  | uniform n =>
      rw [requestOf] at hr
      split at hr
      · cases hr
        exact ⟨rfl, fun _ ↦ bindingRequest_index_lt⟩
      · cases hr
  | uniformStruct n =>
      rw [requestOf] at hr
      split at hr
      · cases hr
        exact ⟨rfl, fun _ ↦ bindingRequest_index_lt⟩
      · cases hr
  | sampler n =>
      rw [requestOf] at hr
      split at hr
      · cases hr
        exact ⟨rfl, fun _ ↦ bindingRequest_index_lt⟩
      · cases hr
  | _ => cases hr

/-- Requests can be made for all declared resources, and are made under different names. -/
theorem exists_requests (hd : d.NamesApart) {handles : List Handle}
    (hbound : ∀ h ∈ handles, Bound d h) (hnodup : handles.Nodup) :
    ∃ requests, handles.mapM (requestOf d) = .ok requests ∧
      (requests.map BindingRequest.name).Nodup ∧
      ∀ r ∈ requests, ∀ i, r.index = some i → i < indexLimit := by
  obtain ⟨requests, hrequests⟩ := exists_mapM_eq_ok fun h hh ↦ (hbound h hh).exists_request
  refine ⟨requests, hrequests, ?_, ?_⟩
  · have hnames : requests.map BindingRequest.name = handles.map Handle.text :=
      map_mapM hrequests fun h _ r hr ↦ (requestOf_eq_ok hr).1
    rw [hnames]
    apply hnodup.map_on
    intro a ha b hb hab
    exact Bound.eq_of_text hd (hbound a ha) (hbound b hb) hab
  · intro r hr
    obtain ⟨h, -, hrequest⟩ := (mem_mapM hrequests).mp hr
    exact (requestOf_eq_ok hrequest).2

/-! ### Entry points -/

/-- An entry point of a stage whose analysis succeeds. -/
structure Uses (p : Program) (stage : Stage) (name : String) (u : Usage) : Prop where
  stage : ∃ e, p.entries.get? name = some e ∧ e.stage = stage
  usage : ((Query.usage name).ask p).1 = .ok u

/-- What an entry point uses on either side, alone or with its peer. -/
inductive Sides (p : Program) (name : String) : Option String → Option Usage → Option Usage → Prop
  | vertex {u : Usage} (h : Uses p .vertex name u) : Sides p name none (some u) none
  | fragment {u : Usage} (h : Uses p .fragment name u) : Sides p name none none (some u)
  | vertexWith {peer : String} {u v : Usage} (h : Uses p .vertex name u)
      (hpeer : Uses p .fragment peer v) : Sides p name (some peer) (some u) (some v)
  | fragmentWith {peer : String} {u v : Usage} (h : Uses p .fragment name u)
      (hpeer : Uses p .vertex peer v) : Sides p name (some peer) (some v) (some u)

variable {p : Program}

theorem Uses.usageOf {stage : Stage} {name : String} {u : Usage} (h : Uses p stage name u) :
    p.usageOf name = .ok u :=
  ((Query.answers_usage name).ask_eq p).symm.trans h.usage

theorem Uses.stageOf {stage : Stage} {name : String} {u : Usage} (h : Uses p stage name u) :
    p.stageOf name = .ok stage := by
  obtain ⟨e, he, rfl⟩ := h.stage
  rw [Program.stageOf, he]

theorem Uses.declared {stage : Stage} {name : String} {u : Usage} (h : Uses p stage name u)
    (hp : p.Reachable) : u.Declared p.toDeclarations :=
  hp.sound.declared name u h.usageOf

/-- The layout of an entry point is the allocation over its sides. -/
theorem Sides.ask_layout {name : String} {peer : Option String} {vertex fragment : Option Usage}
    (h : Sides p name peer vertex fragment) :
    ((Query.layout name peer).ask p).1 = allocate p.toDeclarations vertex fragment := by
  rw [(Query.answers_layout name peer).ask_eq, Program.layoutOf]
  cases h with
  | vertex h => simp [h.usageOf, h.stageOf, Program.peerUsageOf]
  | fragment h => simp [h.usageOf, h.stageOf, Program.peerUsageOf]
  | vertexWith h hpeer =>
      simp [h.usageOf, h.stageOf, Program.peerUsageOf, hpeer.usageOf, hpeer.stageOf]
  | fragmentWith h hpeer =>
      simp [h.usageOf, h.stageOf, Program.peerUsageOf, hpeer.usageOf, hpeer.stageOf]

theorem Sides.declared (hp : p.Reachable) {name : String} {peer : Option String}
    {vertex fragment : Option Usage} (h : Sides p name peer vertex fragment) :
    (∀ u, vertex = some u → u.Declared p.toDeclarations) ∧
      ∀ u, fragment = some u → u.Declared p.toDeclarations := by
  cases h with
  | vertex h =>
      refine ⟨?_, fun u hu ↦ (by cases hu)⟩
      rintro u ⟨⟩
      exact h.declared hp
  | fragment h =>
      refine ⟨fun u hu ↦ (by cases hu), ?_⟩
      rintro u ⟨⟩
      exact h.declared hp
  | vertexWith h hpeer =>
      constructor
      · rintro u ⟨⟩
        exact h.declared hp
      · rintro u ⟨⟩
        exact hpeer.declared hp
  | fragmentWith h hpeer =>
      constructor
      · rintro u ⟨⟩
        exact hpeer.declared hp
      · rintro u ⟨⟩
        exact h.declared hp

/-- A uniform, a struct uniform or a sampler that one side uses. -/
def UsedBy (side : Option Usage) (h : Handle) : Prop :=
  ∃ u, side = some u ∧ ((∃ n ∈ u.uniforms, h = .uniform n) ∨
    (∃ n ∈ u.uniformStructs, h = .uniformStruct n) ∨ ∃ n ∈ u.samplers, h = .sampler n)

theorem Sides.mem_bindings (hp : p.Reachable) {name : String} {peer : Option String}
    {vertex fragment : Option Usage} (hsides : Sides p name peer vertex fragment) (h : Handle) :
    h ∈ bothSides vertex fragment (·.bindings) ↔ UsedBy vertex h ∨ UsedBy fragment h := by
  obtain ⟨hvertex, hfragment⟩ := hsides.declared hp
  rw [mem_bothSides]
  apply or_congr
  · apply exists_congr
    intro u
    exact and_congr_right fun hu ↦ (hvertex u hu).bindings h
  · apply exists_congr
    intro u
    exact and_congr_right fun hu ↦ (hfragment u hu).bindings h

theorem Sides.exists_requests (hp : p.Reachable) {name : String} {peer : Option String}
    {vertex fragment : Option Usage} (hsides : Sides p name peer vertex fragment) :
    ∃ requests,
      (bothSides vertex fragment (·.bindings)).mapM (requestOf p.toDeclarations) = .ok requests ∧
      (requests.map BindingRequest.name).Nodup ∧
      ∀ r ∈ requests, ∀ i, r.index = some i → i < indexLimit := by
  obtain ⟨hvertex, hfragment⟩ := hsides.declared hp
  apply Layout.exists_requests hp.sound.apart
  · intro h hh
    rcases mem_bothSides.mp hh with ⟨u, hu, hmem⟩ | ⟨u, hu, hmem⟩
    · exact bound_of_declared (hvertex u hu) hmem
    · exact bound_of_declared (hfragment u hu) hmem
  · exact nodup_bothSides _ _ _

/-- The parts of a layout are handed out one kind after the other. -/
structure Allocated (d : Declarations) (vertex fragment : Option Usage) (l : Layout) : Prop where
  attributes : allocateLocations .vertexAttribute
    (locationRequests (fun n ↦ (d.attributes.get? n).bind (·.location))
      ((vertex.map (·.attributes.toList)).getD [])) = .ok l.attributes
  varyings : allocateLocations .varying
    (locationRequests (fun n ↦ (d.varyings.get? n).bind (·.location))
      (bothSides vertex fragment (·.varyings))) = .ok l.varyings
  outputs : allocateLocations .output
    (locationRequests (fun n ↦ (d.outputs.get? n).bind (·.location))
      ((fragment.map (·.outputs.toList)).getD [])) = .ok l.outputs
  bindings : ∃ requests slots,
    (bothSides vertex fragment (·.bindings)).mapM (requestOf d) = .ok requests ∧
    allocateBindings requests = .ok slots ∧ l.uniforms = uniformsOf slots ∧
    l.samplers = samplersOf slots

theorem allocated_of_eq_ok {d : Declarations} {vertex fragment : Option Usage} {l : Layout}
    (h : allocate d vertex fragment = .ok l) : Allocated d vertex fragment l := by
  obtain ⟨attributes, hattributes, h⟩ := bind_eq_ok.mp h
  obtain ⟨varyings, hvaryings, h⟩ := bind_eq_ok.mp h
  obtain ⟨outputs, houtputs, h⟩ := bind_eq_ok.mp h
  obtain ⟨requests, hrequests, h⟩ := bind_eq_ok.mp h
  obtain ⟨slots, hslots, h⟩ := bind_eq_ok.mp h
  cases h
  exact ⟨hattributes, hvaryings, houtputs, requests, slots, hrequests, hslots, rfl, rfl⟩

/-! ### Look-ups -/

/-- The slots that a layout gives to a resource. -/
inductive Has (l : Layout) : String → Slots → Prop
  | buffer {n : String} {point : BindingPoint} (h : l.uniform? n = some point) :
      Has l n (.buffer point)
  | texture {n : String} {slots : SamplerSlots} (h : l.sampler? n = some slots) :
      Has l n (.texture slots)

variable {slots : List (String × Slots)}

theorem mem_uniformsOf {n : String} {point : BindingPoint} :
    (n, point) ∈ uniformsOf slots ↔ (n, .buffer point) ∈ slots := by
  constructor
  · intro h
    obtain ⟨⟨m, s⟩, hs, heq⟩ := List.mem_filterMap.mp h
    cases s <;> cases heq
    exact hs
  · intro h
    exact List.mem_filterMap.mpr ⟨_, h, rfl⟩

theorem mem_samplersOf {n : String} {t : SamplerSlots} :
    (n, t) ∈ samplersOf slots ↔ (n, .texture t) ∈ slots := by
  constructor
  · intro h
    obtain ⟨⟨m, s⟩, hs, heq⟩ := List.mem_filterMap.mp h
    cases s <;> cases heq
    exact hs
  · intro h
    exact List.mem_filterMap.mpr ⟨_, h, rfl⟩

/-- Resources of one kind have different names if all resources have. -/
theorem nodup_fst_filterMap {α : Type} {f : String × Slots → Option (String × α)}
    (hf : ∀ s a, f s = some a → a.1 = s.1) (h : (slots.map Prod.fst).Nodup) :
    ((slots.filterMap f).map Prod.fst).Nodup := by
  refine h.sublist ?_
  clear h
  induction slots with
  | nil => exact .slnil
  | cons s rest ih =>
      cases hs : f s with
      | none =>
          rw [List.filterMap_cons_none hs]
          exact ih.cons _
      | some a =>
          rw [List.filterMap_cons_some hs, List.map_cons, List.map_cons, hf s a hs]
          exact ih.cons_cons _

theorem has_iff_mem {l : Layout} (huniforms : l.uniforms = uniformsOf slots)
    (hsamplers : l.samplers = samplersOf slots) (hnames : (slots.map Prod.fst).Nodup) {n : String}
    {s : Slots} : Has l n s ↔ (n, s) ∈ slots := by
  constructor
  · intro h
    cases h with
    | buffer h => exact mem_uniformsOf.mp (huniforms ▸ mem_of_lookup h)
    | texture h => exact mem_samplersOf.mp (hsamplers ▸ mem_of_lookup h)
  · intro h
    cases s with
    | buffer point =>
        refine .buffer (lookup_of_mem ?_ (huniforms ▸ mem_uniformsOf.mpr h))
        rw [huniforms]
        refine nodup_fst_filterMap ?_ hnames
        rintro ⟨m, s⟩ a ha
        cases s <;> cases ha
        rfl
    | texture t =>
        refine .texture (lookup_of_mem ?_ (hsamplers ▸ mem_samplersOf.mpr h))
        rw [hsamplers]
        refine nodup_fst_filterMap ?_ hnames
        rintro ⟨m, s⟩ a ha
        cases s <;> cases ha
        rfl

theorem overflows_iff {r : BindingRequest} (hr : ∀ i, r.index = some i → i < indexLimit) :
    r.Overflows ↔ r.need = .filteredTexture ∧ r.index = some 4294967295 := by
  apply and_congr_right
  intro _
  constructor
  · rintro ⟨i, hi, hlimit⟩
    have hlt := hr i hi
    have heq : i = 4294967295 := by
      unfold indexLimit at hlimit hlt
      omega
    rw [hi, heq]
  · intro hi
    exact ⟨4294967295, hi, by decide⟩

/-- In a reachable program, the uniforms, struct uniforms and samplers that an entry point and its
peer use get their bindings unless two of them claim a common slot or the sampler object of one of
them has no index left.  The layout has these bindings. -/
theorem bindings_of_reachable (p : Program) (hp : p.Reachable) (name : String)
    (peer : Option String) (vertex fragment : Option Usage)
    (hsides : Sides p name peer vertex fragment) :
    (∀ h, h ∈ bothSides vertex fragment (·.bindings) ↔ UsedBy vertex h ∨ UsedBy fragment h) ∧
    ∃ requests,
      (bothSides vertex fragment (·.bindings)).mapM (requestOf p.toDeclarations) = .ok requests ∧
      ((∃ e, allocateBindings requests = .error e) ↔ Collide requests ∨
        ∃ r ∈ requests, r.need = .filteredTexture ∧ r.index = some 4294967295) ∧
      (∀ slots, allocateBindings requests = .ok slots → Assigned requests slots) ∧
      ∀ l, ((Query.layout name peer).ask p).1 = .ok l →
        ∃ slots, allocateBindings requests = .ok slots ∧ ∀ n s, Has l n s ↔ (n, s) ∈ slots := by
  obtain ⟨requests, hrequests, hnames, hindices⟩ := hsides.exists_requests hp
  refine ⟨hsides.mem_bindings hp, requests, hrequests, ?_, ?_, ?_⟩
  · have hoverflows : (∃ r ∈ requests, r.Overflows) ↔
        ∃ r ∈ requests, r.need = .filteredTexture ∧ r.index = some 4294967295 := by
      apply exists_congr
      intro r
      exact and_congr_right fun hr ↦ overflows_iff (hindices r hr)
    rw [exists_error_iff, allocateBindings_succeeds_iff hnames, ← hoverflows, not_and_or, not_not]
    push Not
    rfl
  · intro slots hslots
    exact assigned_of_allocateBindings hnames hslots
  · intro l hl
    rw [hsides.ask_layout] at hl
    obtain ⟨requests', slots, hrequests', hslots, huniforms, hsamplers⟩ :=
      (allocated_of_eq_ok hl).bindings
    obtain rfl : requests' = requests := Except.ok.inj (hrequests'.symm.trans hrequests)
    have hdistinct := (assigned_of_allocateBindings hnames hslots).names ▸ hnames
    exact ⟨slots, hslots, fun _ _ ↦ has_iff_mem huniforms hsamplers hdistinct⟩

/-- A fragment entry point that samples a texture near where the vertex entry point says. -/
def textured : List Action :=
  let vector := Ty.ofPrim (.vector .float .two)
  let offset := Term.ofHandle vector (.uniform "offset")
  let uv := Term.ofHandle vector (.varying "uv")
  [.uniform "offset" vector ⟨0, some 1⟩, .sampler "image" .plane ⟨0, none⟩,
    .varying "uv" ⟨vector, none, none, none⟩, .entry "vs" .vertex (Recorder.set uv offset),
    .entry "fs" .fragment <|
      Recorder.leave (.sample .plane "image" (.arithmetic .add uv offset))]

theorem uses_textured : ∃ v f, Uses (Action.run textured) .vertex "vs" v ∧
    Uses (Action.run textured) .fragment "fs" f :=
  ⟨_, _, ⟨⟨_, rfl, rfl⟩, rfl⟩, ⟨⟨_, rfl, rfl⟩, rfl⟩⟩

/-- A filtered texture takes the indices next to an explicit uniform that both stages use. -/
theorem bindings_of_reachable_textured :
    ∃ v f l requests slots, Sides (Action.run textured) "fs" (some "vs") (some v) (some f) ∧
      ((Query.layout "fs" (some "vs")).ask (Action.run textured)).1 = .ok l ∧
      (bothSides (some v) (some f) (·.bindings)).mapM
        (requestOf (Action.run textured).toDeclarations) = .ok requests ∧
      Assigned requests slots ∧ (∀ n s, Has l n s ↔ (n, s) ∈ slots) ∧
      ("offset", .buffer ⟨0, 1⟩) ∈ slots ∧ ("image", .texture ⟨0, 0, some 2⟩) ∈ slots := by
  have hlayout : Except.toOption (do
      let l ← ((Query.layout "fs" (some "vs")).ask (Action.run textured)).1
      return (l.uniform? "offset", l.sampler? "image")) =
        some (some ⟨0, 1⟩, some ⟨0, 0, some 2⟩) := by
    decide +kernel
  obtain ⟨l, hl, hlayout⟩ := bind_eq_ok.mp (eq_ok_of_toOption hlayout)
  obtain ⟨hoffset, himage⟩ := Prod.mk.inj (Except.ok.inj hlayout)
  obtain ⟨v, f, hv, hf⟩ := uses_textured
  have hsides := Sides.fragmentWith hf hv
  obtain ⟨-, requests, hrequests, -, hassigned, hall⟩ :=
    bindings_of_reachable _ (Action.reachable_run textured) "fs" (some "vs") _ _ hsides
  obtain ⟨slots, hslots, hhas⟩ := hall l hl
  exact ⟨v, f, l, requests, slots, hsides, hl, hrequests, hassigned slots hslots, hhas,
    (hhas _ _).mp (.buffer hoffset), (hhas _ _).mp (.texture himage)⟩

end Shading.Layout
