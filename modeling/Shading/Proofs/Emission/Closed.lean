import Shading.Proofs.Glsl.Closed
import Shading.Proofs.Wgsl.Closed

/-!
# Closed and pruned texts

In a reachable program, the shaders and modules of an entry point mention only what its analysis has
found and what they declare, once each, and they declare nothing else.
-/

namespace Shading

/-! ### Layouts of entry points -/

namespace Layout

/-- What is bound on either side has slots that fit what it asks for. -/
theorem Allocated.exists_slots {d : Declarations} {vertex fragment : Option Usage} {l : Layout}
    (h : Allocated d vertex fragment l) (hd : d.NamesApart)
    (hbound : ∀ a ∈ bothSides vertex fragment (·.bindings), Bound d a) {a : Handle}
    (ha : a ∈ bothSides vertex fragment (·.bindings)) :
    ∃ r s, requestOf d a = .ok r ∧ Fits r s ∧ Has l r.name s := by
  obtain ⟨requests, slots, hrequests, hslots, huniforms, hsamplers⟩ := h.bindings
  obtain ⟨requests', hrequests', hnames, -⟩ := exists_requests hd hbound (nodup_bothSides _ _ _)
  obtain rfl : requests' = requests := Except.ok.inj (hrequests'.symm.trans hrequests)
  have hassigned := assigned_of_allocateBindings hnames hslots
  obtain ⟨r, hr, hrequest⟩ := exists_mem_of_mem_mapM hrequests ha
  obtain ⟨s, hs, hfits⟩ := hassigned.exists_mem hr
  have hhas := (has_iff_mem huniforms hsamplers (hassigned.names ▸ hnames)).mpr hs
  exact ⟨r, s, hrequest, hfits, hhas⟩

/-- The samplers that are filtered get a sampler object. -/
theorem Allocated.isSome_object {d : Declarations} {vertex fragment : Option Usage} {l : Layout}
    (h : Allocated d vertex fragment l) (hd : d.NamesApart)
    (hbound : ∀ a ∈ bothSides vertex fragment (·.bindings), Bound d a) {n : String}
    (hn : .sampler n ∈ bothSides vertex fragment (·.bindings)) {decl : SamplerDecl}
    (hdecl : d.samplers.get? n = some decl) :
    ((l.sampler? n).bind (·.object)).isSome = decl.kind.isPaired := by
  obtain ⟨r, s, hrequest, hfits, hhas⟩ := h.exists_slots hd hbound hn
  rw [requestOf, hdecl] at hrequest
  cases hrequest
  -- A paired sampler asks for two slots and any other for one, so whatever fits the request has
  -- both or has no object.
  have hobject : ∃ t, s = .texture t ∧ t.object.isSome = decl.kind.isPaired := by
    cases s with
    | buffer point =>
        cases hpaired : decl.kind.isPaired <;> simp [Fits, bindingRequest, hpaired] at hfits
    | texture t =>
        refine ⟨t, rfl, ?_⟩
        cases hpaired : decl.kind.isPaired with
        | true =>
            simp only [Fits, bindingRequest, hpaired, if_true] at hfits
            exact hfits.2.1
        | false =>
            simp only [Fits, bindingRequest, hpaired, Bool.false_eq_true, if_false] at hfits
            rw [hfits.2.1]
            rfl
  obtain ⟨t, rfl, hobject⟩ := hobject
  obtain ⟨⟩ | hslots := hhas
  have hlookup : l.sampler? n = some t := hslots
  rw [hlookup]
  exact hobject

end Layout

theorem Program.Sound.declared_peer {p : Program} (hp : p.Sound) {name : String} {stage : Stage}
    {peer : Option String} {other : Option Usage}
    (h : p.peerUsageOf name stage peer = .ok other) :
    ∀ u, other = some u → u.Declared p.toDeclarations := by
  rintro u rfl
  cases peer with
  | none => cases h
  | some peer =>
      obtain ⟨stage, -, h⟩ := bind_eq_ok.mp h
      split at h
      · cases h
      · obtain ⟨v, hv, h⟩ := bind_eq_ok.mp h
        cases h
        exact hp.declared peer u hv

/-- The layout of an entry point is allocated over two sides, one of which is its own. -/
theorem Program.Reachable.allocated {p : Program} (hp : p.Reachable) {name : String}
    {peer : Option String} {e : Emission} (he : p.emissionOf name peer = .ok e) :
    ∃ vertex fragment, Layout.Allocated e.decls vertex fragment e.layout ∧
      (∀ u, vertex = some u ∨ fragment = some u → u.Declared e.decls) ∧
      ((e.stage = .vertex ∧ vertex = some e.usage) ∨
        (e.stage = .fragment ∧ fragment = some e.usage)) := by
  obtain ⟨hdecls, hstage, husage, hlayout, -⟩ := hp.emission he
  obtain ⟨own, hown, hlayout⟩ := bind_eq_ok.mp hlayout
  cases husage.symm.trans hown
  obtain ⟨stage, hstage', hlayout⟩ := bind_eq_ok.mp hlayout
  cases hstage.symm.trans hstage'
  obtain ⟨other, hother, hlayout⟩ := bind_eq_ok.mp hlayout
  -- The peer is of the other stage, so that the two never take the same side.
  have hown := hp.sound.declared name e.usage husage
  have hpeer := hp.sound.declared_peer hother
  rw [hdecls]
  cases hs : e.stage with
  | vertex =>
      rw [hs] at hlayout
      refine ⟨_, _, Layout.allocated_of_eq_ok hlayout, ?_, .inl ⟨rfl, rfl⟩⟩
      rintro u (hu | hu)
      · cases hu
        exact hown
      · exact hpeer u hu
  | fragment =>
      rw [hs] at hlayout
      refine ⟨_, _, Layout.allocated_of_eq_ok hlayout, ?_, .inr ⟨rfl, rfl⟩⟩
      rintro u (hu | hu)
      · exact hpeer u hu
      · cases hu
        exact hown

/-- What the sides of a layout bind is declared. -/
theorem Layout.bound_of_sides {d : Declarations} {vertex fragment : Option Usage}
    (h : ∀ u, vertex = some u ∨ fragment = some u → u.Declared d) :
    ∀ a ∈ bothSides vertex fragment (·.bindings), Bound d a := by
  intro a ha
  rcases mem_bothSides.mp ha with ⟨u, hu, ha⟩ | ⟨u, hu, ha⟩
  · exact bound_of_declared (h u (.inl hu)) ha
  · exact bound_of_declared (h u (.inr hu)) ha

theorem Program.Reachable.isSome_object {p : Program} (hp : p.Reachable) {name : String}
    {peer : Option String} {e : Emission} (he : p.emissionOf name peer = .ok e) {n : String}
    (hn : n ∈ e.usage.samplers) {decl : SamplerDecl} (hdecl : e.decls.samplers.get? n = some decl) :
    ((e.layout.sampler? n).bind (·.object)).isSome = decl.kind.isPaired := by
  obtain ⟨vertex, fragment, hallocated, hdeclared, hside⟩ := hp.allocated he
  obtain ⟨hdecls, -⟩ := hp.emission he
  refine hallocated.isSome_object (hdecls ▸ hp.sound.apart) (Layout.bound_of_sides hdeclared) ?_
    hdecl
  rw [Layout.mem_bothSides]
  rcases hside with ⟨-, hu⟩ | ⟨-, hu⟩
  · exact .inl ⟨_, hu, (Wgsl.mem_bindings_sampler (hdeclared _ (.inl hu))).mpr hn⟩
  · exact .inr ⟨_, hu, (Wgsl.mem_bindings_sampler (hdeclared _ (.inr hu))).mpr hn⟩

theorem Program.Reachable.supplied {p : Program} (hp : p.Reachable) {name : String}
    {peer : Option String} {e : Emission} (he : p.emissionOf name peer = .ok e) :
    Wgsl.Supplied e := by
  obtain ⟨vertex, fragment, hallocated, -, hside⟩ := hp.allocated he
  constructor
  · intro hstage
    rcases hside with ⟨-, rfl⟩ | ⟨hfragment, -⟩
    · exact (Layout.located_of_allocateLocations e.usage.attributes.nodup
        hallocated.attributes).names
    · cases hstage.symm.trans hfragment
  · intro n hn decl hdecl hpaired
    exact (hp.isSome_object he hn hdecl).trans hpaired

/-! ### Texts of entry points -/

/-- Whatever is written in the text of an entry point, in either language, is used by it and
declared once, and nothing is declared that it does not use. -/
theorem closed_and_pruned (p : Program) (hp : p.Reachable) (name : String) :
    (∀ o s, ((Query.glsl name o).ask p).1 = .ok s → ∃ e, p.emissionOf name none = .ok e ∧
      ((Query.usage name).ask p).1 = .ok e.usage ∧ Glsl.Closed e o.version s ∧
      ∀ a ∈ s.symbols, e.usage.Wants a) ∧
    (∀ o m, ((Query.wgsl name o).ask p).1 = .ok m → ∃ e, p.emissionOf name o.peer = .ok e ∧
      ((Query.usage name).ask p).1 = .ok e.usage ∧ Wgsl.Closed e o m ∧
      ∀ a ∈ m.symbols (Wgsl.locals e (Wgsl.entryFlow e o)), e.usage.Wants a) := by
  constructor
  · intro o s h
    rw [(Query.answers_glsl name o).ask_eq] at h
    obtain ⟨e, he, h⟩ := bind_eq_ok.mp h
    obtain ⟨hdecls, -, husage, -, hu⟩ := hp.emission he
    rw [← hdecls] at hu
    have hparts := Glsl.parts_of_emit h
    refine ⟨e, he, ((Query.answers_usage name).ask_eq p).trans husage,
      Glsl.closed_of_parts hparts (hdecls ▸ hp.sound.apart) hu, ?_⟩
    intro a ha
    exact (Glsl.inventory_of_parts hparts hu).wants (Usage.declared_of_eq_ok hu)
      (Glsl.wants_outputs hparts.outputs) ha
  · intro o m h
    rw [(Query.answers_wgsl name o).ask_eq] at h
    obtain ⟨e, he, h⟩ := bind_eq_ok.mp h
    obtain ⟨hdecls, -, husage, -, hu⟩ := hp.emission he
    rw [← hdecls] at hu
    have hsupplied := hp.supplied he
    refine ⟨e, he, ((Query.answers_usage name).ask_eq p).trans husage,
      Wgsl.closed_of_emit h (hdecls ▸ hp.sound.apart) hu hsupplied, ?_⟩
    intro a ha
    exact (Wgsl.inventory_of_emit h hu hsupplied.attributes).wants (Usage.declared_of_eq_ok hu)
      (fun a ↦ Wgsl.wants_furtherSymbols (Usage.declared_of_eq_ok hu)) ha

/-- A fragment entry point that reads a texture through a helper, which reads a constant, which
reads a uniform.  Another uniform is not used. -/
def brightened : List Action :=
  let color := Ty.ofPrim (.vector .float .four)
  let coords := Ty.ofPrim (.vector .float .two)
  let level := Term.ofHandle .float (.constant 0)
  [.uniform "gain" .float ⟨0, none⟩, .uniform "unused" .float ⟨0, none⟩,
    .constant (.ofHandle .float (.uniform "gain")), .sampler "image" .plane ⟨0, none⟩,
    .varying "uv" ⟨coords, none, none, none⟩, .output "albedo" color none,
    .helper "brighten" [color]
      (return some (.arithmetic .mul (.ofHandle color (.argument 0)) level)),
    .entry "fs" .fragment <|
      Recorder.when (.builtin .frontFacing)
        (Recorder.set (.ofHandle color (.output "albedo"))
          (.call (.helper "brighten") color
            [.sample .plane "image" (.ofHandle coords (.varying "uv"))]))
        Recorder.otherwiseNothing]

def brightenedShader : List Symbol :=
  [⟨.varying, "uv"⟩, ⟨.output, "albedo"⟩, ⟨.resource, "image"⟩, ⟨.resource, "gain"⟩,
    ⟨.constant, "glob_0"⟩, ⟨.function, "brighten"⟩]

def brightenedModule : List Symbol :=
  [⟨.resource, "image"⟩, ⟨.samplerObject, "image_sampler"⟩, ⟨.resource, "gain"⟩,
    ⟨.constant, "glob_0"⟩, ⟨.function, "brighten"⟩, ⟨.builtin, "front_facing"⟩, ⟨.varying, "uv"⟩,
    ⟨.output, "albedo"⟩, ⟨.builtin, "frag_out"⟩]

theorem closed_and_pruned_brightened :
    ∃ s m e, ((Query.glsl "fs" .default).ask (Action.run brightened)).1 = .ok s ∧
      ((Query.wgsl "fs" .default).ask (Action.run brightened)).1 = .ok m ∧
      (Action.run brightened).emissionOf "fs" none = .ok e ∧
      s.symbols = brightenedShader ∧ m.symbols (m.entry.body.take 1) = brightenedModule ∧
      Glsl.Closed e .es300 s ∧ Wgsl.Closed e .default m := by
  have hsymbols : Except.toOption (do
      let s ← ((Query.glsl "fs" .default).ask (Action.run brightened)).1
      let m ← ((Query.wgsl "fs" .default).ask (Action.run brightened)).1
      return (s.symbols, m.symbols (m.entry.body.take 1))) =
        some (brightenedShader, brightenedModule) := by
    decide +kernel
  obtain ⟨s, hs, hsymbols⟩ := bind_eq_ok.mp (eq_ok_of_toOption hsymbols)
  obtain ⟨m, hm, hsymbols⟩ := bind_eq_ok.mp hsymbols
  obtain ⟨hshader, hmodule⟩ := Prod.mk.inj (Except.ok.inj hsymbols)
  obtain ⟨hglsl, hwgsl⟩ := closed_and_pruned _ (Action.reachable_run brightened) "fs"
  obtain ⟨e, he, -, hclosed, -⟩ := hglsl _ s hs
  obtain ⟨e', he', -, hclosed', -⟩ := hwgsl _ m hm
  obtain rfl : e = e' := Except.ok.inj (he.symm.trans he')
  exact ⟨s, m, e, hs, hm, he, hshader, hmodule, hclosed, hclosed'⟩

end Shading
