import Shading.Proofs.Emission.DistinctNames
import Shading.Proofs.Emission.Locations

/-!
# Varyings in both languages

A shader of version 3.00 and a module declare the varyings that an entry point uses, each in its own
words: names and types, and a mode of interpolation unless it is the usual one.  Integers cannot be
interpolated and have to be flat.  In a module they are; in a shader they are unless something else
is asked for, and then what is asked for is declared.

Main statement: both declare the same varyings with the same types, in the order of their locations,
and the same modes exactly if no used varying is an integer that is asked not to be flat.
-/

namespace Shading

/-! ### Modes of interpolation -/

namespace VaryingDecl

/-- The mode that a declaration comes to if integers are always flat. -/
def mode (d : VaryingDecl) : Interpolation :=
  if d.type.isIntegral then .flat else d.interpolation.getD .perspective

/-- The mode that a declaration comes to if whatever it asks for is granted. -/
def askedMode (d : VaryingDecl) : Interpolation :=
  d.interpolation.getD (if d.type.isIntegral then .flat else .perspective)

/-- Integers that are asked not to be flat. -/
def Contrary (d : VaryingDecl) : Prop :=
  d.type.isIntegral = true ∧ ∃ i, d.interpolation = some i ∧ i ≠ .flat

theorem askedMode_eq_mode_iff (d : VaryingDecl) : d.askedMode = d.mode ↔ ¬ d.Contrary := by
  rw [askedMode, mode, Contrary]
  cases d.type.isIntegral <;> cases d.interpolation <;> simp

end VaryingDecl

/-- A varying as a text declares it. -/
structure Varying where
  name : String
  type : Code.TypeName
  interpolation : Interpolation
  deriving DecidableEq, Repr

def Varying.ofDecl (mode : VaryingDecl → Interpolation) (name : String) (d : VaryingDecl) :
    Varying :=
  ⟨name, .ofTy d.type, mode d⟩

/-! ### Shaders -/

variable {e : Emission}

theorem Emission.mem_varyings_of_mem {x : String × Nat} (h : x ∈ e.varyingsByLocation) :
    x.1 ∈ e.usage.varyings :=
  (Wgsl.perm_varyingsByLocation e).mem_iff.mp (List.mem_map_of_mem h)

namespace Glsl

/-- Without a qualifier the mode is perspective. -/
def Global.varying? : Global → Option Varying
  | .varying qualifiers type name =>
    some ⟨name, type, (qualifiers.bind (·.interpolation)).getD .perspective⟩
  | _ => none

def Shader.varyings (s : Shader) : List Varying :=
  s.inputs.filterMap Global.varying?

variable {gs : List Global}

/-- The inputs are attributes, of which a fragment has none, and varyings. -/
theorem exists_varyings_of_inputs (h : inputs e .es300 = .ok gs) :
    ∃ attributes varyings, gs = attributes ++ varyings ∧
      attributes.filterMap Global.varying? = [] ∧
      e.varyingsByLocation.mapM (fun x ↦ varyingGlobal e .es300 x.1) = .ok varyings := by
  have hattribute : ∀ n ∈ e.usage.attributes.toList, ∀ g, inputGlobal e .es300 n = .ok g →
      g.varying? = none := by
    intro n _ g hg
    obtain ⟨decl, -, hg⟩ := bind_eq_ok.mp hg
    obtain ⟨type, -, hg⟩ := bind_eq_ok.mp hg
    cases hg
    rfl
  cases hstage : e.stage with
  | vertex =>
      simp only [inputs, hstage] at h
      obtain ⟨attributes, hattributes, h⟩ := bind_eq_ok.mp h
      obtain ⟨varyings, hvaryings, h⟩ := bind_eq_ok.mp h
      cases h
      refine ⟨attributes, varyings, rfl, ?_, hvaryings⟩
      rw [filterMap_mapM hattributes hattribute, List.filterMap_none]
  | fragment =>
      simp only [inputs, hstage] at h
      obtain ⟨attributes, hattributes, h⟩ := bind_eq_ok.mp h
      obtain ⟨varyings, hvaryings, h⟩ := bind_eq_ok.mp h
      cases hattributes
      cases h
      exact ⟨[], varyings, rfl, rfl, hvaryings⟩

/-- What is written has been declared. -/
theorem exists_decl_of_inputs (h : inputs e .es300 = .ok gs) : ∃ decl : String → VaryingDecl,
    ∀ n ∈ e.usage.varyings, e.decls.varyings.get? n = some (decl n) := by
  obtain ⟨attributes, varyings, -, -, hvaryings⟩ := exists_varyings_of_inputs h
  refine ⟨fun n ↦ (e.decls.varyings.get? n).getD ⟨.float, none, none, none⟩, ?_⟩
  intro n hn
  obtain ⟨x, hx, rfl⟩ := List.mem_map.mp ((Wgsl.perm_varyingsByLocation e).mem_iff.mpr hn)
  obtain ⟨g, -, hg⟩ := exists_mem_of_mem_mapM hvaryings hx
  obtain ⟨d, hd, -⟩ := bind_eq_ok.mp hg
  have hd := Declarations.find_eq_ok.mp hd
  simp only [hd, Option.getD_some]

theorem varyings_inputs {decl : String → VaryingDecl}
    (hdecl : ∀ n ∈ e.usage.varyings, e.decls.varyings.get? n = some (decl n))
    (h : inputs e .es300 = .ok gs) : gs.filterMap Global.varying? =
      e.varyingsByLocation.map fun x ↦ .ofDecl VaryingDecl.askedMode x.1 (decl x.1) := by
  obtain ⟨attributes, varyings, rfl, hattributes, hvaryings⟩ := exists_varyings_of_inputs h
  have hvarying : ∀ x ∈ e.varyingsByLocation, ∀ g, varyingGlobal e .es300 x.1 = .ok g →
      g.varying? = some (.ofDecl VaryingDecl.askedMode x.1 (decl x.1)) := by
    intro x hx g hg
    obtain ⟨d, hd, hg⟩ := bind_eq_ok.mp hg
    obtain ⟨type, htype, hg⟩ := bind_eq_ok.mp hg
    have hd := Declarations.find_eq_ok.mp hd
    rw [hdecl x.1 (Emission.mem_varyings_of_mem hx)] at hd
    cases hd
    cases hg
    rw [eq_ofTy_of_typeName htype, Global.varying?, Varying.ofDecl, VaryingDecl.askedMode]
    cases hask : (decl x.1).interpolation <;> simp [varyingQualifiers, hask]
    cases (decl x.1).type.isIntegral <;> rfl
  rw [List.filterMap_append, hattributes, List.nil_append, filterMap_mapM hvaryings hvarying,
    List.filterMap_eq_map']

end Glsl

/-! ### Modules -/

namespace Wgsl

variable {o : Options} {m : Module}

/-- Without an attribute the mode is perspective. -/
def Member.interpolation (a : Member) : Interpolation :=
  (a.attributes.findSome? fun
    | .interpolate i _ => some i
    | _ => none).getD .perspective

def Member.varying (a : Member) : Varying :=
  ⟨a.name, a.type, a.interpolation⟩

theorem interpolation_interpolateAttribute (d : VaryingDecl) (i : Nat) (n : String)
    (t : Code.TypeName) :
    (⟨.location i :: interpolateAttribute d, n, t⟩ : Member).interpolation = d.mode := by
  rw [Member.interpolation, interpolateAttribute, VaryingDecl.mode]
  cases d.type.isIntegral with
  | true => rfl
  | false =>
      rcases d.interpolation with _ | _ | _ | _
      · cases d.sampling <;> rfl
      all_goals rfl

theorem varyings_varyingFields {decl : String → VaryingDecl}
    (hdecl : ∀ n ∈ e.usage.varyings, e.decls.varyings.get? n = some (decl n))
    {fields : List Member} (h : varyingFields e = .ok fields) : fields.map Member.varying =
      e.varyingsByLocation.map fun x ↦ .ofDecl VaryingDecl.mode x.1 (decl x.1) := by
  refine map_mapM h ?_
  intro x hx a ha
  obtain ⟨d, hd, ha⟩ := bind_eq_ok.mp ha
  have hd := Declarations.find_eq_ok.mp hd
  rw [hdecl x.1 (Emission.mem_varyings_of_mem hx)] at hd
  cases hd
  cases ha
  rw [Member.varying, interpolation_interpolateAttribute]
  rfl

theorem location?_varyingFields {fields : List Member} (h : varyingFields e = .ok fields)
    {a : Member} (ha : a ∈ fields) : a.location?.isSome = true := by
  obtain ⟨x, -, ha⟩ := (mem_mapM h).mp ha
  obtain ⟨d, -, ha⟩ := bind_eq_ok.mp ha
  cases ha
  rfl

theorem varyingFields_of_unused (h : ∀ n, n ∉ e.usage.varyings) : varyingFields e = .ok [] := by
  have hnone : e.usage.varyings.toList = [] := List.eq_nil_iff_forall_not_mem.mpr h
  rw [varyingFields, Emission.varyingsByLocation, hnone]
  rfl

/-- Only varyings among the fields have a location. -/
theorem filter_fields {own fields : List Member} (hown : ∀ a ∈ own, a.location? = none)
    (hfields : varyingFields e = .ok fields) :
    (own ++ fields).filter (fun a ↦ a.location?.isSome) = fields := by
  have hnone : own.filter (fun a ↦ a.location?.isSome) = [] := by
    rw [List.filter_eq_nil_iff]
    intro a ha
    simp [hown a ha]
  have hall : fields.filter (fun a ↦ a.location?.isSome) = fields := by
    rw [List.filter_eq_self]
    intro a ha
    exact location?_varyingFields hfields ha
  rw [List.filter_append, hnone, hall, List.nil_append]

theorem filter_results {results : List Struct} (h : ∀ s ∈ results, s.name = fragmentOut)
    {struct : String} (hstruct : fragmentOut ≠ struct) :
    results.filter (·.name = struct) = [] := by
  rw [List.filter_eq_nil_iff]
  intro s hs hname
  exact hstruct ((h s hs).symm.trans (of_decide_eq_true hname))

theorem varyings_of_results (h : ∀ s ∈ m.interface, s.name = fragmentOut) : m.varyings = [] := by
  simp [Module.varyings, Module.fieldsOf, filter_results h fragmentOut_ne.1,
    filter_results h fragmentOut_ne.2]

/-- One struct carries the varyings, behind fields of its own. -/
theorem varyings_of_carrier {struct : String} {own fields : List Member} {results : List Struct}
    (h : m.interface = ⟨struct, own ++ fields⟩ :: results)
    (hstruct : struct = vertexOutput ∨ struct = fragmentInputName)
    (hown : ∀ a ∈ own, a.location? = none) (hfields : varyingFields e = .ok fields)
    (hresults : ∀ s ∈ results, s.name = fragmentOut) : m.varyings = fields := by
  have hne : vertexOutput ≠ fragmentInputName := by decide
  have hcarried : m.fieldsOf vertexOutput ++ m.fieldsOf fragmentInputName = own ++ fields := by
    rcases hstruct with rfl | rfl <;>
      simp [Module.fieldsOf, h, filter_results hresults fragmentOut_ne.1,
        filter_results hresults fragmentOut_ne.2, hne, hne.symm]
  rw [Module.varyings, hcarried, filter_fields hown hfields]

/-- The varyings of a module are the fields for them, in order. -/
theorem varyingFields_eq_varyings (h : interface e (entryFlow e o) = .ok m.interface) :
    varyingFields e = .ok m.varyings := by
  cases hstage : e.stage with
  | vertex =>
      obtain ⟨output, remap, hflow, houtput⟩ := entryFlow_vertex o hstage
      rw [hflow] at h
      cases output with
      | false =>
          have hinterface : m.interface = [] := (Except.ok.inj h).symm
          rw [varyings_of_results (by simp [hinterface])]
          exact varyingFields_of_unused fun n hn ↦ Bool.noConfusion (houtput n hn)
      | true =>
          obtain ⟨fields, hfields, h⟩ := bind_eq_ok.mp h
          have hinterface : m.interface = [⟨vertexOutput, [positionField] ++ fields⟩] :=
            (Except.ok.inj h).symm
          have hown : ∀ a ∈ [positionField], a.location? = none := by
            intro a ha
            rw [List.mem_singleton.mp ha]
            rfl
          rw [varyings_of_carrier hinterface (.inl rfl) hown hfields (by simp), hfields]
  | fragment =>
      obtain ⟨input, output, color, hflow, hinput⟩ := entryFlow_fragment o hstage
      rw [hflow] at h
      obtain ⟨inputs, results, hinterface, hinputs, hresults⟩ := exists_interface_fragment h
      have hresults : ∀ s ∈ results, s.name = fragmentOut := by
        split at hresults
        · obtain ⟨fields, -, rfl⟩ := hresults
          simp
        · simp [hresults]
      cases input with
      | false =>
          obtain rfl : inputs = [] := hinputs
          rw [varyings_of_results (hinterface ▸ hresults)]
          exact varyingFields_of_unused fun n hn ↦ Bool.noConfusion (hinput n hn)
      | true =>
          obtain ⟨fields, hfields, rfl⟩ := hinputs
          rw [varyings_of_carrier hinterface (.inr rfl) (fun a ↦ location?_fragmentBuiltins)
            hfields hresults, hfields]

theorem varyings_interface {decl : String → VaryingDecl}
    (hdecl : ∀ n ∈ e.usage.varyings, e.decls.varyings.get? n = some (decl n))
    (h : interface e (entryFlow e o) = .ok m.interface) : m.varyings.map Member.varying =
      e.varyingsByLocation.map fun x ↦ .ofDecl VaryingDecl.mode x.1 (decl x.1) :=
  varyings_varyingFields hdecl (varyingFields_eq_varyings h)

end Wgsl

/-! ### Locations -/

theorem OrderedSet.toList_insertAll_of_nodup {α : Type} [DecidableEq α] {s : OrderedSet α}
    {items : List α} (h : (s.toList ++ items).Nodup) :
    (s.insertAll items).toList = s.toList ++ items := by
  induction items generalizing s with
  | nil => simp [insertAll]
  | cons a items ih =>
      have ha : a ∉ s := (List.disjoint_of_nodup_append h · List.mem_cons_self)
      have hinsert := toList_insert_of_notMem ha
      have hstep : s.insertAll (a :: items) = (s.insert a).insertAll items := rfl
      rw [List.append_cons, ← hinsert] at h ⊢
      rw [hstep, ih h]

namespace Layout

variable {p : Program} {entry : String}

theorem bothSides_fragment {α : Type} [DecidableEq α] (u : Usage)
    (select : Usage → OrderedSet α) : bothSides none (some u) select = (select u).toList :=
  OrderedSet.toList_insertAll_of_nodup (select u).nodup

/-- Alone, an entry point has locations for the varyings that it uses. -/
theorem Uses.located_varyings {stage : Stage} {u : Usage} (hu : Uses p stage entry u) {l : Layout}
    (h : ((Query.layout entry none).ask p).1 = .ok l) :
    Located u.varyings.toList l.varyings := by
  cases stage with
  | vertex =>
      rw [(Sides.vertex hu).ask_layout] at h
      exact located_of_allocateLocations (nodup_bothSides (some u) none (·.varyings))
        (allocated_of_eq_ok h).varyings
  | fragment =>
      rw [(Sides.fragment hu).ask_layout] at h
      rw [← bothSides_fragment u (·.varyings)]
      exact located_of_allocateLocations (nodup_bothSides _ _ _) (allocated_of_eq_ok h).varyings

theorem uses_of_emissionOf {peer : Option String} (h : p.emissionOf entry peer = .ok e) :
    Uses p e.stage entry e.usage := by
  obtain ⟨own, hown, h⟩ := bind_eq_ok.mp h
  obtain ⟨layout, hlayout, h⟩ := bind_eq_ok.mp h
  obtain ⟨stage, hstage, h⟩ := bind_eq_ok.mp h
  obtain ⟨body, -, h⟩ := bind_eq_ok.mp h
  cases h
  refine ⟨?_, ((Query.answers_usage entry).ask_eq p).trans hown⟩
  unfold Program.stageOf at hstage
  split at hstage
  · next e he => exact ⟨e, he, Except.ok.inj hstage⟩
  · cases hstage

end Layout

/-! ### Both languages -/

theorem Emission.varyingsByLocation_eq
    (h : Layout.Located e.usage.varyings.toList e.layout.varyings) :
    e.varyingsByLocation = Layout.sortByLocation e.layout.varyings :=
  congrArg Layout.sortByLocation h.map_lookup

/-- Lists of the same varyings are equal if all modes are. -/
theorem map_ofDecl_eq_iff {decl : String → VaryingDecl} {xs : List (String × Nat)} :
    xs.map (fun x ↦ Varying.ofDecl VaryingDecl.askedMode x.1 (decl x.1)) =
        xs.map (fun x ↦ Varying.ofDecl VaryingDecl.mode x.1 (decl x.1)) ↔
      ∀ n ∈ xs.map Prod.fst, ¬ (decl n).Contrary := by
  rw [List.map_inj_left, List.forall_mem_map]
  refine forall₂_congr fun x _ ↦ ?_
  rw [← VaryingDecl.askedMode_eq_mode_iff, Varying.ofDecl, Varying.ofDecl, Varying.mk.injEq]
  simp only [true_and]

/-- A shader and a module of the same entry point, without a peer, declare the varyings that it uses
by location.  Names and types agree, and modes do unless integers are asked not to be flat. -/
theorem varyings_agree_but {p : Program} {entry : String} {o : Glsl.Options} {o' : Wgsl.Options}
    {s : Glsl.Shader} {m : Wgsl.Module} (hversion : o.version = .es300) (hpeer : o'.peer = none)
    (hs : ((Query.glsl entry o).ask p).1 = .ok s) (hm : ((Query.wgsl entry o').ask p).1 = .ok m) :
    s.varyings.map (fun v ↦ (v.name, v.type)) = m.varyings.map (fun a ↦ (a.name, a.type)) ∧
    ∃ u l, ((Query.usage entry).ask p).1 = .ok u ∧
      ((Query.layout entry none).ask p).1 = .ok l ∧ l.varyings.map Prod.fst = u.varyings.toList ∧
      ∃ decl : String → VaryingDecl,
        (∀ n ∈ u.varyings, p.varyings.get? n = some (decl n)) ∧
        s.varyings = (Layout.sortByLocation l.varyings).map
          (fun x ↦ .ofDecl VaryingDecl.askedMode x.1 (decl x.1)) ∧
        m.varyings.map Wgsl.Member.varying = (Layout.sortByLocation l.varyings).map
          (fun x ↦ .ofDecl VaryingDecl.mode x.1 (decl x.1)) ∧
        (s.varyings = m.varyings.map Wgsl.Member.varying ↔
          ∀ n ∈ u.varyings, ¬ (decl n).Contrary) ∧
        ∀ n ∈ u.varyings, (decl n).type.isIntegral = true → (decl n).mode = .flat ∧
          ((decl n).askedMode = .flat ↔ ¬ (decl n).Contrary) := by
  rw [(Query.answers_glsl entry o).ask_eq] at hs
  rw [(Query.answers_wgsl entry o').ask_eq, hpeer] at hm
  obtain ⟨e, he, hs⟩ := bind_eq_ok.mp hs
  obtain ⟨e', he', hm⟩ := bind_eq_ok.mp hm
  -- Without a peer both start from the same emission.
  cases he.symm.trans he'
  have hu := Layout.uses_of_emissionOf he
  obtain ⟨hdecls, -, -, hlayout⟩ := hu.emission he
  have hlocated := hu.located_varyings hlayout
  have hinputs := (Glsl.parts_of_emit hs).inputs
  rw [hversion] at hinputs
  obtain ⟨-, -, hinterface, -⟩ := Wgsl.emit_eq_ok hm
  obtain ⟨decl, hdecl⟩ := Glsl.exists_decl_of_inputs hinputs
  have hshader : s.varyings = _ := Glsl.varyings_inputs hdecl hinputs
  have hmodule := Wgsl.varyings_interface hdecl hinterface
  rw [Emission.varyingsByLocation_eq hlocated] at hshader hmodule
  have hused : ∀ n, n ∈ (Layout.sortByLocation e.layout.varyings).map Prod.fst ↔
      n ∈ e.usage.varyings := by
    intro n
    rw [((Layout.perm_sortByLocation e.layout.varyings).map Prod.fst).mem_iff, hlocated.names,
      OrderedSet.mem_def]
  refine ⟨?_, e.usage, e.layout, hu.usage, hlayout, hlocated.names, decl, hdecls ▸ hdecl, hshader,
    hmodule, ?_, ?_⟩
  · have htypes := congrArg (List.map fun v : Varying ↦ (v.name, v.type)) hmodule
    rw [List.map_map, List.map_map] at htypes
    rw [hshader, List.map_map]
    exact htypes.symm
  · rw [hshader, hmodule, map_ofDecl_eq_iff]
    simp only [hused]
  · intro n _ hintegral
    rw [← VaryingDecl.askedMode_eq_mode_iff, VaryingDecl.mode, if_pos hintegral]
    exact ⟨rfl, Iff.rfl⟩

/-- A vertex passes a serial number on behind a shade; another one passes on a count that is asked
to be interpolated. -/
def numbered : List Action :=
  let vector := Ty.ofPrim (.vector .float .four)
  let number := Ty.ofPrim (.vector .uint .one)
  let place := Term.ofHandle vector (.vertexAttribute "place")
  let serial := Term.ofHandle number (.varying "serial")
  let shade := Term.ofHandle vector (.varying "shade")
  let count := Term.ofHandle .int (.varying "count")
  [.vertexAttribute "place" vector none, .varying "serial" ⟨number, some 1, none, none⟩,
    .varying "shade" ⟨vector, none, some .linear, some .centroid⟩,
    .varying "count" ⟨.int, none, some .perspective, none⟩,
    .entry "flat" .vertex (do
      Recorder.set serial (.convert number.prim [.ofHandle .int (.builtin .vertexId)])
      Recorder.set shade place
      Recorder.leave place),
    .entry "smooth" .vertex (do
      Recorder.set count (.ofHandle .int (.builtin .vertexId))
      Recorder.leave place)]

theorem varyings_agree_but_numbered :
    ∃ s m u, ((Query.glsl "flat" .default).ask (Action.run numbered)).1 = .ok s ∧
      ((Query.wgsl "flat" .default).ask (Action.run numbered)).1 = .ok m ∧
      ((Query.usage "flat").ask (Action.run numbered)).1 = .ok u ∧
      m.varyings.map Wgsl.Member.varying =
        [⟨"shade", .ofTy (.ofPrim (.vector .float .four)), .linear⟩,
          ⟨"serial", .ofTy (.ofPrim (.vector .uint .one)), .flat⟩] ∧
      s.varyings = m.varyings.map Wgsl.Member.varying ∧
      ∃ decl : String → VaryingDecl, ∀ n ∈ u.varyings,
        (Action.run numbered).varyings.get? n = some (decl n) ∧ ¬ (decl n).Contrary := by
  have hshader : (((Query.glsl "flat" .default).ask (Action.run numbered)).1).toOption.map
      Glsl.Shader.varyings = some [⟨"shade", .ofTy (.ofPrim (.vector .float .four)), .linear⟩,
        ⟨"serial", .ofTy (.ofPrim (.vector .uint .one)), .flat⟩] := by
    decide +kernel
  have hmodule : (((Query.wgsl "flat" .default).ask (Action.run numbered)).1).toOption.map
      (fun m ↦ m.varyings.map Wgsl.Member.varying) =
        some [⟨"shade", .ofTy (.ofPrim (.vector .float .four)), .linear⟩,
          ⟨"serial", .ofTy (.ofPrim (.vector .uint .one)), .flat⟩] := by
    decide +kernel
  obtain ⟨s, hs, hshader⟩ := Option.map_eq_some_iff.mp hshader
  obtain ⟨m, hm, hmodule⟩ := Option.map_eq_some_iff.mp hmodule
  have hs := eq_ok_of_toOption hs
  have hm := eq_ok_of_toOption hm
  have hsame := hshader.trans hmodule.symm
  obtain ⟨-, u, -, hu, -, -, decl, hdecl, -, -, hiff, -⟩ := varyings_agree_but rfl rfl hs hm
  exact ⟨s, m, u, hs, hm, hu, hmodule, hsame, decl,
    fun n hn ↦ ⟨hdecl n hn, hiff.mp hsame n hn⟩⟩

/-- The count is flat in the module only. -/
theorem varyings_of_numbered :
    ∃ s m, ((Query.glsl "smooth" .default).ask (Action.run numbered)).1 = .ok s ∧
      ((Query.wgsl "smooth" .default).ask (Action.run numbered)).1 = .ok m ∧
      s.varyings = [⟨"count", .ofTy .int, .perspective⟩] ∧
      m.varyings.map Wgsl.Member.varying = [⟨"count", .ofTy .int, .flat⟩] := by
  have hshader : (((Query.glsl "smooth" .default).ask (Action.run numbered)).1).toOption.map
      Glsl.Shader.varyings = some [⟨"count", .ofTy .int, .perspective⟩] := by
    decide +kernel
  have hmodule : (((Query.wgsl "smooth" .default).ask (Action.run numbered)).1).toOption.map
      (fun m ↦ m.varyings.map Wgsl.Member.varying) = some [⟨"count", .ofTy .int, .flat⟩] := by
    decide +kernel
  obtain ⟨s, hs, hshader⟩ := Option.map_eq_some_iff.mp hshader
  obtain ⟨m, hm, hmodule⟩ := Option.map_eq_some_iff.mp hmodule
  exact ⟨s, m, eq_ok_of_toOption hs, eq_ok_of_toOption hm, hshader, hmodule⟩

end Shading
