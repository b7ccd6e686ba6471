import Shading.Proofs.Glsl.Closed
import Shading.Proofs.Layout.Requests
import Shading.Proofs.Program.Observation
import Shading.Proofs.Wgsl.Linking

/-!
# Locations of attributes and outputs

The attributes of a vertex entry point and the outputs of a fragment entry point are handed their
locations from what the entry point itself uses.  A peer plays no part in it, so that layouts,
shaders and modules all show the same locations.
-/

namespace Shading

open Layout

namespace Layout

theorem Located.map_lookup {names : List String} {locations : List (String × Nat)}
    (h : Located names locations) :
    names.map (fun n ↦ (n, (locations.lookup n).getD 0)) = locations := by
  have hsame : ∀ x ∈ locations, (x.1, (locations.lookup x.1).getD 0) = x := by
    rintro ⟨n, i⟩ hmem
    rw [h.lookup_eq hmem, Option.getD_some]
  rw [← h.names, List.map_map]
  exact (List.map_congr_left hsame).trans (List.map_id locations)

theorem eq_nil_of_sortByLocation {items : List (String × Nat)} (h : sortByLocation items = []) :
    items = [] :=
  (h ▸ perm_sortByLocation items).nil_eq.symm

/-! ### The locations of an entry point -/

/-- The attributes that are used, with their locations. -/
def attributesOf (d : Declarations) (u : Usage) : Except Error (List (String × Nat)) :=
  allocateLocations .vertexAttribute <|
    locationRequests (fun n ↦ (d.attributes.get? n).bind (·.location)) u.attributes.toList

/-- The fragment outputs that are used, with their locations. -/
def outputsOf (d : Declarations) (u : Usage) : Except Error (List (String × Nat)) :=
  allocateLocations .output <|
    locationRequests (fun n ↦ (d.outputs.get? n).bind (·.location)) u.outputs.toList

theorem located_of_attributesOf {d : Declarations} {u : Usage} {locations : List (String × Nat)}
    (h : attributesOf d u = .ok locations) : Located u.attributes.toList locations :=
  located_of_allocateLocations u.attributes.nodup h

theorem located_of_outputsOf {d : Declarations} {u : Usage} {locations : List (String × Nat)}
    (h : outputsOf d u = .ok locations) : Located u.outputs.toList locations :=
  located_of_allocateLocations u.outputs.nodup h

variable {p : Program} {entry : String} {u : Usage} {peer : Option String} {l : Layout}

/-- With or without a peer, what an entry point uses is one of the two sides of its layout. -/
theorem Uses.exists_allocated {stage : Stage} (hu : Uses p stage entry u)
    (h : ((Query.layout entry peer).ask p).1 = .ok l) :
    ∃ vertex fragment, Allocated p.toDeclarations vertex fragment l ∧
      (stage = .vertex ∧ vertex = some u ∨ stage = .fragment ∧ fragment = some u) := by
  rw [(Query.answers_layout entry peer).ask_eq] at h
  obtain ⟨own, hown, h⟩ := bind_eq_ok.mp h
  obtain ⟨stage', hstage, h⟩ := bind_eq_ok.mp h
  obtain ⟨other, -, h⟩ := bind_eq_ok.mp h
  cases hu.usageOf.symm.trans hown
  cases hu.stageOf.symm.trans hstage
  cases stage with
  | vertex => exact ⟨some u, other, allocated_of_eq_ok h, .inl ⟨rfl, rfl⟩⟩
  | fragment => exact ⟨other, some u, allocated_of_eq_ok h, .inr ⟨rfl, rfl⟩⟩

theorem Uses.attributesOf_eq (hu : Uses p .vertex entry u)
    (h : ((Query.layout entry peer).ask p).1 = .ok l) :
    attributesOf p.toDeclarations u = .ok l.attributes := by
  obtain ⟨vertex, fragment, hallocated, ⟨-, rfl⟩ | ⟨hstage, -⟩⟩ := hu.exists_allocated h
  · exact hallocated.attributes
  · cases hstage

theorem Uses.outputsOf_eq (hu : Uses p .fragment entry u)
    (h : ((Query.layout entry peer).ask p).1 = .ok l) :
    outputsOf p.toDeclarations u = .ok l.outputs := by
  obtain ⟨vertex, fragment, hallocated, ⟨hstage, -⟩ | ⟨-, rfl⟩⟩ := hu.exists_allocated h
  · cases hstage
  · exact hallocated.outputs

/-- What is emitted of an entry point has its usage and the layout with the same peer. -/
theorem Uses.emission {stage : Stage} (hu : Uses p stage entry u) {e : Emission}
    (h : p.emissionOf entry peer = .ok e) :
    e.decls = p.toDeclarations ∧ e.stage = stage ∧ e.usage = u ∧
      ((Query.layout entry peer).ask p).1 = .ok e.layout := by
  obtain ⟨own, hown, h⟩ := bind_eq_ok.mp h
  obtain ⟨layout, hlayout, h⟩ := bind_eq_ok.mp h
  obtain ⟨stage', hstage, h⟩ := bind_eq_ok.mp h
  obtain ⟨body, -, h⟩ := bind_eq_ok.mp h
  cases h
  cases hu.usageOf.symm.trans hown
  cases hu.stageOf.symm.trans hstage
  exact ⟨rfl, rfl, rfl, ((Query.answers_layout entry peer).ask_eq p).trans hlayout⟩

end Layout

/-- Outputs by location, or else the one for the colour. -/
def ShowsOutputs (outputs shown : List (String × Nat)) : Prop :=
  shown = sortByLocation outputs ∨ outputs = [] ∧ shown = [("color", 0)]

theorem Emission.outputsByLocation_eq {e : Emission}
    (h : Layout.Located e.usage.outputs.toList e.layout.outputs) :
    e.outputsByLocation = sortByLocation e.layout.outputs :=
  congrArg sortByLocation h.map_lookup

/-! ### Shaders -/

namespace Glsl

variable {e : Emission} {v : Version} {gs : List Global}

def Global.attribute? : Global → Option (String × Nat)
  | .input (some i) _ name => some (name, i)
  | _ => none

def Global.output? : Global → Option (String × Nat)
  | .output i _ name => some (name, i)
  | _ => none

theorem attributes_inputs (hstage : e.stage = .vertex)
    (hlocated : Located e.usage.attributes.toList e.layout.attributes)
    (h : inputs e .es300 = .ok gs) : gs.filterMap Global.attribute? = e.layout.attributes := by
  simp only [inputs, hstage] at h
  obtain ⟨attributes, hattributes, h⟩ := bind_eq_ok.mp h
  obtain ⟨varyings, hvaryings, h⟩ := bind_eq_ok.mp h
  cases h
  have hinput : ∀ n ∈ e.usage.attributes.toList, ∀ g, inputGlobal e .es300 n = .ok g →
      g.attribute? = some (n, (e.layout.attribute? n).getD 0) := by
    intro n _ g hg
    obtain ⟨decl, -, hg⟩ := bind_eq_ok.mp hg
    obtain ⟨type, -, hg⟩ := bind_eq_ok.mp hg
    cases hg
    rfl
  have hvarying : ∀ n ∈ e.varyingsByLocation, ∀ g, varyingGlobal e .es300 n.1 = .ok g →
      g.attribute? = none := by
    intro n _ g hg
    obtain ⟨decl, -, hg⟩ := bind_eq_ok.mp hg
    obtain ⟨type, -, hg⟩ := bind_eq_ok.mp hg
    cases hg
    rfl
  rw [List.filterMap_append, filterMap_mapM hattributes hinput, filterMap_mapM hvaryings hvarying,
    List.filterMap_none, List.append_nil, List.filterMap_eq_map']
  exact hlocated.map_lookup

theorem outputs_outputs (hstage : e.stage = .fragment)
    (hlocated : Located e.usage.outputs.toList e.layout.outputs)
    (h : outputs e .es300 = .ok gs) :
    ShowsOutputs e.layout.outputs (gs.filterMap Global.output?) := by
  simp only [outputs, hstage] at h
  rw [Emission.outputsByLocation_eq hlocated] at h
  split at h
  · next hnone =>
    cases h
    rw [eq_nil_of_sortByLocation hnone]
    split
    · exact .inr ⟨rfl, rfl⟩
    · exact .inl rfl
  · have houtput : ∀ n ∈ sortByLocation e.layout.outputs, ∀ g,
        outputGlobal e .es300 n.1 n.2 = .ok g → g.output? = some n := by
      intro n _ g hg
      obtain ⟨decl, -, hg⟩ := bind_eq_ok.mp hg
      obtain ⟨type, -, hg⟩ := bind_eq_ok.mp hg
      cases hg
      rfl
    refine .inl ?_
    rw [filterMap_mapM h houtput, List.filterMap_some]

/-- In version 1.00, where no output is declared, every use of an output is written as its place
among the fragment data. -/
def WritesOutputs (e : Emission) (s : Shader) (outputs : List (String × Nat)) : Prop :=
  Parts e .es100 s ∧ ∀ n i, (n, i) ∈ outputs →
    lower (context e .es100) (.var (.output n)) = .ok (fragData i)

theorem writesOutputs_of_parts {s : Shader}
    (hlocated : Located e.usage.outputs.toList e.layout.outputs) (h : Parts e .es100 s) :
    WritesOutputs e s e.layout.outputs := by
  refine ⟨h, ?_⟩
  intro n i hmem
  have hlocation : e.outputLocation n = i := by
    rw [Emission.outputLocation, output?, hlocated.lookup_eq hmem, Option.getD_some]
  rw [← hlocation]
  rfl

end Glsl

/-! ### Modules -/

namespace Wgsl

variable {e : Emission} {o : Options} {m : Module}

/-- The name and the location of a member that has one. -/
def Member.place? (a : Member) : Option (String × Nat) :=
  a.location?.map fun i ↦ (a.name, i)

theorem place?_params {output remap : Bool} {ps : List Member}
    (h : params e (.vertex output remap) = .ok ps) :
    ps.filterMap Member.place? = sortByLocation e.layout.attributes := by
  obtain ⟨attributes, hattributes, h⟩ := bind_eq_ok.mp h
  cases h
  have hparam : ∀ n ∈ sortByLocation e.layout.attributes, ∀ a,
      attributeParam e n.1 n.2 = .ok a → a.place? = some n := by
    intro n _ a ha
    obtain ⟨decl, -, ha⟩ := bind_eq_ok.mp ha
    cases ha
    rfl
  have hindex : ∀ (used : Bool) (b : String),
      (if used then [indexParam b] else []).filterMap Member.place? = [] := by
    intro used b
    cases used <;> rfl
  rw [List.filterMap_append, List.filterMap_append, hindex, hindex, List.append_nil,
    List.append_nil, filterMap_mapM hattributes hparam, List.filterMap_some]

theorem place?_outputFields (hlocated : Located e.usage.outputs.toList e.layout.outputs)
    {fields : List Member} (h : outputFields e = .ok fields) :
    ShowsOutputs e.layout.outputs (fields.filterMap Member.place?) := by
  rw [outputFields, Emission.outputsByLocation_eq hlocated] at h
  split at h
  · next hnone =>
    cases h
    exact .inr ⟨eq_nil_of_sortByLocation hnone, rfl⟩
  · have houtput : ∀ n ∈ sortByLocation e.layout.outputs, ∀ a,
        outputField e n.1 n.2 = .ok a → a.place? = some n := by
      intro n _ a ha
      obtain ⟨decl, -, ha⟩ := bind_eq_ok.mp ha
      cases ha
      rfl
    refine .inl ?_
    rw [filterMap_mapM h houtput, List.filterMap_some]

/-- The structs of a fragment entry point: what goes in, then what goes out. -/
theorem exists_interface_fragment {input output : Bool} {color : String} {ss : List Struct}
    (h : interface e (.fragment input output color) = .ok ss) :
    ∃ inputs outputs, ss = inputs ++ outputs ∧
      (if input then ∃ fields, varyingFields e = .ok fields ∧
          inputs = [⟨fragmentInputName, fragmentBuiltins e ++ fields⟩]
        else inputs = []) ∧
      if output then ∃ fields, outputFields e = .ok fields ∧ outputs = [⟨fragmentOut, fields⟩]
      else outputs = [] := by
  cases input with
  | false =>
      obtain ⟨inputs, hinputs, h⟩ := bind_eq_ok.mp h
      cases hinputs
      cases output with
      | false =>
          cases h
          exact ⟨[], [], rfl, rfl, rfl⟩
      | true =>
          obtain ⟨fields, hfields, h⟩ := bind_eq_ok.mp h
          cases h
          exact ⟨[], _, rfl, rfl, fields, hfields, rfl⟩
  | true =>
      obtain ⟨varyings, hvaryings, h⟩ := bind_eq_ok.mp h
      obtain ⟨inputs, hinputs, h⟩ := bind_eq_ok.mp h
      cases hinputs
      cases output with
      | false =>
          cases h
          exact ⟨_, [], (List.append_nil _).symm, ⟨varyings, hvaryings, rfl⟩, rfl⟩
      | true =>
          obtain ⟨fields, hfields, h⟩ := bind_eq_ok.mp h
          cases h
          exact ⟨_, _, rfl, ⟨varyings, hvaryings, rfl⟩, fields, hfields, rfl⟩

theorem fieldsOf_fragmentOut {input output : Bool} {color : String}
    (h : interface e (.fragment input output color) = .ok m.interface) :
    if output then outputFields e = .ok (m.fieldsOf fragmentOut)
    else m.fieldsOf fragmentOut = [] := by
  obtain ⟨inputs, outputs, hinterface, hinputs, houtputs⟩ := exists_interface_fragment h
  have hnone : inputs.filter (·.name = fragmentOut) = [] := by
    split at hinputs
    · obtain ⟨fields, -, rfl⟩ := hinputs
      rfl
    · rw [hinputs, List.filter_nil]
  have hfields : m.fieldsOf fragmentOut =
      (outputs.filter (·.name = fragmentOut)).flatMap Struct.fields := by
    rw [Module.fieldsOf, hinterface, List.filter_append, hnone, List.nil_append]
  rw [hfields]
  split at houtputs
  · next hon =>
    obtain ⟨fields, hout, rfl⟩ := houtputs
    simpa [hon] using hout
  · next hoff =>
    simp [hoff, houtputs]

theorem place?_fragmentOut (hstage : e.stage = .fragment)
    (hlocated : Located e.usage.outputs.toList e.layout.outputs)
    (h : interface e (entryFlow e o) = .ok m.interface) :
    ShowsOutputs e.layout.outputs ((m.fieldsOf fragmentOut).filterMap Member.place?) := by
  have hflow : ∃ input color, entryFlow e o = .fragment input
      (leavesBare e.usage || !e.usage.outputs.isEmpty || e.usesBuiltin .fragColor) color := by
    rw [entryFlow, flow, hstage]
    exact ⟨_, _, rfl⟩
  obtain ⟨input, color, hflow⟩ := hflow
  rw [hflow] at h
  have hfields := fieldsOf_fragmentOut h
  split at hfields
  · exact place?_outputFields hlocated hfields
  · -- Without a struct for it there is a single colour, and no output is used.
    next hoff =>
    have hunused : e.usage.outputs.toList = [] := by
      simp only [Bool.or_eq_true, not_or, Bool.not_eq_true', Bool.not_eq_false] at hoff
      exact List.isEmpty_iff.mp hoff.1.2
    have hempty : e.layout.outputs = [] := by
      rw [← hlocated.map_lookup, hunused, List.map_nil]
    rw [hfields, hempty]
    exact .inl rfl

end Wgsl

/-! ### Entry points -/

section

variable {p : Program} {entry : String} {u : Usage}

theorem attributes_of_glsl (hu : Uses p .vertex entry u) {o : Glsl.Options} {s : Glsl.Shader}
    (hv : o.version = .es300) (h : ((Query.glsl entry o).ask p).1 = .ok s) :
    attributesOf p.toDeclarations u = .ok (s.inputs.filterMap Glsl.Global.attribute?) := by
  rw [(Query.answers_glsl entry o).ask_eq] at h
  obtain ⟨e, he, hemit⟩ := bind_eq_ok.mp h
  obtain ⟨-, hstage, rfl, hlayout⟩ := hu.emission he
  have hattributes := hu.attributesOf_eq hlayout
  have hinputs := (Glsl.parts_of_emit hemit).inputs
  rw [hv] at hinputs
  rwa [Glsl.attributes_inputs hstage (located_of_attributesOf hattributes) hinputs]

theorem attributes_of_wgsl (hu : Uses p .vertex entry u) {o : Wgsl.Options} {m : Wgsl.Module}
    (h : ((Query.wgsl entry o).ask p).1 = .ok m) :
    ∃ attributes, attributesOf p.toDeclarations u = .ok attributes ∧
      m.entry.params.filterMap Wgsl.Member.place? = sortByLocation attributes := by
  rw [(Query.answers_wgsl entry o).ask_eq] at h
  obtain ⟨e, he, hemit⟩ := bind_eq_ok.mp h
  obtain ⟨-, hstage, rfl, hlayout⟩ := hu.emission he
  obtain ⟨-, -, -, hparams⟩ := Wgsl.emit_eq_ok hemit
  obtain ⟨output, remap, hflow, -⟩ := Wgsl.entryFlow_vertex o hstage
  rw [hflow] at hparams
  exact ⟨e.layout.attributes, hu.attributesOf_eq hlayout, Wgsl.place?_params hparams⟩

theorem outputs_of_glsl (hu : Uses p .fragment entry u) {o : Glsl.Options} {s : Glsl.Shader}
    (h : ((Query.glsl entry o).ask p).1 = .ok s) :
    ∃ outputs, outputsOf p.toDeclarations u = .ok outputs ∧
      (o.version = .es300 → ShowsOutputs outputs (s.outputs.filterMap Glsl.Global.output?)) ∧
      (o.version = .es100 →
        ∃ e, p.emissionOf entry none = .ok e ∧ Glsl.WritesOutputs e s outputs) := by
  rw [(Query.answers_glsl entry o).ask_eq] at h
  obtain ⟨e, he, hemit⟩ := bind_eq_ok.mp h
  obtain ⟨-, hstage, rfl, hlayout⟩ := hu.emission he
  have houtputs := hu.outputsOf_eq hlayout
  have hlocated := located_of_outputsOf houtputs
  have hparts := Glsl.parts_of_emit hemit
  refine ⟨e.layout.outputs, houtputs, ?_, ?_⟩
  · intro hv
    rw [hv] at hparts
    exact Glsl.outputs_outputs hstage hlocated hparts.outputs
  · intro hv
    rw [hv] at hparts
    exact ⟨e, he, Glsl.writesOutputs_of_parts hlocated hparts⟩

theorem outputs_of_wgsl (hu : Uses p .fragment entry u) {o : Wgsl.Options} {m : Wgsl.Module}
    (h : ((Query.wgsl entry o).ask p).1 = .ok m) :
    ∃ outputs, outputsOf p.toDeclarations u = .ok outputs ∧
      ShowsOutputs outputs ((m.fieldsOf Wgsl.fragmentOut).filterMap Wgsl.Member.place?) := by
  rw [(Query.answers_wgsl entry o).ask_eq] at h
  obtain ⟨e, he, hemit⟩ := bind_eq_ok.mp h
  obtain ⟨-, hstage, rfl, hlayout⟩ := hu.emission he
  have houtputs := hu.outputsOf_eq hlayout
  obtain ⟨-, -, hinterface, -⟩ := Wgsl.emit_eq_ok hemit
  exact ⟨e.layout.outputs, houtputs,
    Wgsl.place?_fragmentOut hstage (located_of_outputsOf houtputs) hinterface⟩

end

/-- Requests under different names fail with the first collision, and otherwise get their own
location or the next one that no request claims.  With any peer or none, an entry point has these
locations for its attributes and outputs in layouts, in shaders and in modules. -/
theorem locations_allotted :
    (∀ (kind : DeclKind) (requests : List (String × Option Nat)), (requests.map Prod.fst).Nodup →
      ((∃ e, allocateLocations kind requests = .error e) ↔
        ∃ n m i, n ≠ m ∧ (n, some i) ∈ requests ∧ (m, some i) ∈ requests) ∧
      (∀ e, allocateLocations kind requests = .error e ↔ ∃ index first name,
        CollidesFirst requests index first name ∧
        e = .indexCollision (.location kind) index first name) ∧
      ∀ locations, allocateLocations kind requests = .ok locations →
        Allotted requests locations) ∧
    ∀ (p : Program) (entry : String) (u : Usage),
      (Uses p .vertex entry u →
        (∀ peer l, ((Query.layout entry peer).ask p).1 = .ok l →
          attributesOf p.toDeclarations u = .ok l.attributes) ∧
        (∀ o s, o.version = .es300 → ((Query.glsl entry o).ask p).1 = .ok s →
          attributesOf p.toDeclarations u = .ok (s.inputs.filterMap Glsl.Global.attribute?)) ∧
        ∀ o m, ((Query.wgsl entry o).ask p).1 = .ok m →
          ∃ attributes, attributesOf p.toDeclarations u = .ok attributes ∧
            m.entry.params.filterMap Wgsl.Member.place? = sortByLocation attributes) ∧
      (Uses p .fragment entry u →
        (∀ peer l, ((Query.layout entry peer).ask p).1 = .ok l →
          outputsOf p.toDeclarations u = .ok l.outputs) ∧
        (∀ o s, ((Query.glsl entry o).ask p).1 = .ok s →
          ∃ outputs, outputsOf p.toDeclarations u = .ok outputs ∧
            (o.version = .es300 →
              ShowsOutputs outputs (s.outputs.filterMap Glsl.Global.output?)) ∧
            (o.version = .es100 →
              ∃ e, p.emissionOf entry none = .ok e ∧ Glsl.WritesOutputs e s outputs)) ∧
        ∀ o m, ((Query.wgsl entry o).ask p).1 = .ok m →
          ∃ outputs, outputsOf p.toDeclarations u = .ok outputs ∧
            ShowsOutputs outputs
              ((m.fieldsOf Wgsl.fragmentOut).filterMap Wgsl.Member.place?)) := by
  constructor
  · intro kind requests hnames
    refine ⟨?_, fun e ↦ allocateLocations_eq_error_iff hnames, fun locations h ↦
      allotted_of_allocateLocations hnames h⟩
    constructor
    · rintro ⟨e, he⟩
      obtain ⟨index, first, name, hcollides, -⟩ := (allocateLocations_eq_error_iff hnames).mp he
      exact ⟨first, name, index, hcollides.ne hnames, hcollides.mem⟩
    · rintro ⟨n, m, i, hne, hn, hm⟩
      have hnodup : ¬ (explicit requests).Nodup := fun hnodup ↦
        hne (eq_of_nodup_explicit hnodup hn hm)
      obtain ⟨index, first, name, hcollides⟩ := exists_collidesFirst hnodup
      exact ⟨_, (allocateLocations_eq_error_iff hnames).mpr
        ⟨index, first, name, hcollides, rfl⟩⟩
  · intro p entry u
    constructor
    · intro hu
      exact ⟨fun peer l ↦ hu.attributesOf_eq, fun o s ↦ attributes_of_glsl hu,
        fun o m ↦ attributes_of_wgsl hu⟩
    · intro hu
      exact ⟨fun peer l ↦ hu.outputsOf_eq, fun o s ↦ outputs_of_glsl hu,
        fun o m ↦ outputs_of_wgsl hu⟩

/-- Attributes and outputs of which the first ones used ask for no location. -/
def deferred : List Action :=
  let vector := Ty.ofPrim (.vector .float .four)
  let place := Term.ofHandle vector (.vertexAttribute "place")
  let normal := Term.ofHandle vector (.vertexAttribute "normal")
  let glow := Term.ofHandle vector (.output "glow")
  let albedo := Term.ofHandle vector (.output "albedo")
  [.vertexAttribute "place" vector (some 0), .vertexAttribute "normal" vector none,
    .output "glow" vector none, .output "albedo" vector (some 0),
    .entry "vs" .vertex (Recorder.leave (.arithmetic .add normal place)),
    .entry "fs" .fragment (do Recorder.set glow albedo; Recorder.set albedo glow)]

theorem locations_allotted_deferred :
    allocateLocations .varying [("a", none), ("b", some 0), ("c", none), ("d", some 2)] =
      .ok [("a", 1), ("b", 0), ("c", 3), ("d", 2)] ∧
    Allotted [("a", none), ("b", some 0), ("c", none), ("d", some 2)]
      [("a", 1), ("b", 0), ("c", 3), ("d", 2)] ∧
    (∃ e, allocateLocations .varying [("a", some 1), ("b", none), ("c", some 1)] = .error e) ∧
    (∃ u m, ((Query.wgsl "vs" ⟨false, some "fs"⟩).ask (Action.run deferred)).1 = .ok m ∧
      m.entry.params.filterMap Wgsl.Member.place? = [("place", 0), ("normal", 1)] ∧
      ∃ attributes, attributesOf (Action.run deferred).toDeclarations u = .ok attributes ∧
        [("place", 0), ("normal", 1)] = sortByLocation attributes) ∧
    ∃ u l, ((Query.layout "fs" (some "vs")).ask (Action.run deferred)).1 = .ok l ∧
      l.outputs = [("glow", 1), ("albedo", 0)] ∧
      outputsOf (Action.run deferred).toDeclarations u = .ok l.outputs := by
  obtain ⟨hrequests, hprogram⟩ := locations_allotted
  have hmixed : allocateLocations .varying
      [("a", none), ("b", some 0), ("c", none), ("d", some 2)] =
      .ok [("a", 1), ("b", 0), ("c", 3), ("d", 2)] := rfl
  obtain ⟨-, -, hallotted⟩ := hrequests .varying
    [("a", none), ("b", some 0), ("c", none), ("d", some 2)] (by decide)
  obtain ⟨hfails, -, -⟩ := hrequests .varying
    [("a", some 1), ("b", none), ("c", some 1)] (by decide)
  have hmodule : (((Query.wgsl "vs" ⟨false, some "fs"⟩).ask (Action.run deferred)).1).toOption.map
      (fun m ↦ m.entry.params.filterMap Wgsl.Member.place?) =
        some [("place", 0), ("normal", 1)] := by decide +kernel
  have hlayout : (((Query.layout "fs" (some "vs")).ask (Action.run deferred)).1).toOption.map
      Layout.outputs = some [("glow", 1), ("albedo", 0)] := by decide +kernel
  obtain ⟨m, hm, hparams⟩ := Option.map_eq_some_iff.mp hmodule
  obtain ⟨l, hl, houtputs⟩ := Option.map_eq_some_iff.mp hlayout
  have hvertex : Uses (Action.run deferred) .vertex "vs" _ := ⟨⟨_, rfl, rfl⟩, rfl⟩
  have hfragment : Uses (Action.run deferred) .fragment "fs" _ := ⟨⟨_, rfl, rfl⟩, rfl⟩
  obtain ⟨-, -, hwgsl⟩ := (hprogram _ _ _).1 hvertex
  obtain ⟨hlayouts, -, -⟩ := (hprogram _ _ _).2 hfragment
  have hm := eq_ok_of_toOption hm
  have hl := eq_ok_of_toOption hl
  exact ⟨hmixed, hallotted _ hmixed, hfails.mpr ⟨"a", "c", 1, by decide, by simp, by simp⟩,
    ⟨_, m, hm, hparams, hparams ▸ hwgsl _ m hm⟩, _, l, hl, houtputs, hlayouts _ l hl⟩

end Shading
