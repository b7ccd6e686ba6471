import Shading.Proofs.Code.Failures
import Shading.Proofs.Emission.Closed

/-!
# Looking things up

Whatever the emission of an entry point looks up is there, once the entry point has a layout: the
declarations of all that it uses, and their locations and bindings.
-/

namespace Shading

/-! ### Helpers and constants -/

namespace Usage

variable {d : Declarations} {stage : Stage}

/-- The helpers and constants that are used are declared. -/
structure Referring (d : Declarations) (u : Usage) : Prop where
  helpers : ∀ n ∈ u.helpers, d.helpers.contains n = true
  constants : ∀ i ∈ u.constants, i < d.constants.size

theorem Notes.referring {u u' : Usage} (h : Notes d stage u u') (hu : Referring d u) :
    Referring d u' := by
  cases h with
  | helper hn =>
      refine { hu with helpers := fun m hm ↦ ?_ }
      rcases OrderedSet.mem_insert.mp hm with hm | rfl
      · exact hu.helpers m hm
      · exact hn
  | constant hi =>
      refine { hu with constants := fun j hj ↦ ?_ }
      rcases OrderedSet.mem_insert.mp hj with hj | rfl
      · exact hu.constants j hj
      · exact hi
  | write h => cases h <;> exact { hu with }
  | leave withValue => cases withValue <;> exact { hu with }
  | _ => exact { hu with }

theorem referring_of_eq_ok {body : Block} {u : Usage} (h : Usage.of d stage body = .ok u) :
    Referring d u := by
  have hnotes := notes_of_eq_ok h
  clear h
  induction hnotes with
  | refl => constructor <;> simp [Usage.empty]
  | tail _ hnote ih => exact hnote.referring ih

end Usage

/-! ### Declarations -/

namespace Declarations

variable {P : Error → Prop} {d : Declarations}

theorem failsOnly_find {α : Type} {table : Table α} {kind : DeclKind} {name : String}
    (h : table.contains name = true) : FailsOnly P (find table kind name) := by
  obtain ⟨a, ha⟩ := Table.exists_get? h
  exact failsOnly_of_exists ⟨a, find_eq_ok.mpr ha⟩

theorem failsOnly_constant {i : Nat} (h : i < d.constants.size) : FailsOnly P (d.constant i) :=
  failsOnly_of_exists ⟨_, constant_eq_ok.mpr (Array.getElem?_eq_getElem h)⟩

end Declarations

namespace Emission

/-- The recorded expressions that an emission writes, inside of helpers or outside of them. -/
inductive Writes (e : Emission) : Bool → Expr → Prop
  | body {r : Expr} (hr : r ∈ Block.exprs e.body) : Writes e false r
  | constant {i : Nat} {c : Term} (hi : i ∈ e.usage.constants)
      (hc : e.decls.constants[i]? = some c) : Writes e false c.expr
  | helper {n : String} {h : Helper} {r : Expr} (hn : n ∈ e.usage.helpers)
      (hh : e.decls.helpers.get? n = some h) (hr : r ∈ h.exprs) : Writes e true r

/-- What an emission looks up is declared and bound. -/
structure Complete (e : Emission) : Prop where
  declared : e.usage.Declared e.decls
  referring : e.usage.Referring e.decls
  attributes : e.stage = .vertex → e.layout.attributes.map Prod.fst = e.usage.attributes.toList
  points : ∀ n, .uniform n ∈ e.usage.bindings ∨ .uniformStruct n ∈ e.usage.bindings →
    ∃ point, e.layout.uniform? n = some point
  slots : ∀ n, .sampler n ∈ e.usage.bindings → ∃ slots, e.layout.sampler? n = some slots

/-- Wherever an emission asks for a location, the layout has one: for the attributes, varyings and
outputs that it declares, for the output that takes the colour and for every output in its code. -/
structure Located (e : Emission) : Prop where
  attributes : ∀ n ∈ e.usage.attributes, ∃ i, e.layout.attribute? n = some i
  varyings : ∀ n i, (n, i) ∈ e.varyingsByLocation → e.layout.varying? n = some i
  outputs : ∀ n i, (n, i) ∈ e.outputsByLocation → e.layout.output? n = some i
  color : ∀ n, e.primaryOutput? = some n → ∃ i, e.layout.output? n = some i
  code : ∀ inHelper r, e.Writes inHelper r → ∀ n, .read (.output n) ∈ Usage.Event.ofExpr r →
    ∃ i, e.layout.output? n = some i

variable {e : Emission}

theorem Writes.holds (hu : Usage.of e.decls e.stage e.body = .ok e.usage) {inHelper : Bool}
    {r : Expr} (h : e.Writes inHelper r) {ev : Usage.Event} (hev : ev ∈ Usage.Event.ofExpr r) :
    e.usage.Holds ev := by
  cases h with
  | body hr => exact Usage.holds_body hu (Usage.Event.mem_ofBlock e.body hr hev)
  | constant hi hc => exact Usage.holds_constant hu hi hc hev
  | helper hn hh hr => exact Usage.holds_helper hu hn hh (Usage.Event.mem_ofHelper hr hev)

/-! ### Code -/

section

open Code (Target)

variable {P : Error → Prop} {t : Target} (hc : e.Complete)
  (htype : ∀ type, FailsOnly P (t.type type))
include hc htype

theorem Complete.failsOnly_constants
    (hexpr : ∀ r, e.Writes false r → FailsOnly P (t.expr r)) : FailsOnly P
      (e.usage.constants.toList.mapM fun i ↦ do t.constant i (← e.decls.constant i)) := by
  apply FailsOnly.mapM
  intro i hi
  refine FailsOnly.bind (Declarations.failsOnly_constant (hc.referring.constants i hi)) ?_
  intro c hconstant
  apply Target.failsOnly_constant htype
  exact hexpr _ (.constant hi (Declarations.constant_eq_ok.mp hconstant))

theorem Complete.failsOnly_functions
    (hexpr : ∀ r, e.Writes true r → FailsOnly P (t.expr r)) : FailsOnly P
      (e.usage.helpers.toList.mapM fun name ↦ do t.function name (← e.decls.helper name)) := by
  apply FailsOnly.mapM
  intro n hn
  refine FailsOnly.bind (Declarations.failsOnly_find (hc.referring.helpers n hn)) ?_
  intro h hhelper
  apply Target.failsOnly_function htype
  intro r hr
  exact hexpr r (.helper hn (Declarations.find_eq_ok.mp hhelper) hr)

end

theorem Writes.exists_constant {t : Code.Target} {cs : List Code.Constant}
    (h : e.usage.constants.toList.mapM (fun i ↦ do t.constant i (← e.decls.constant i)) = .ok cs)
    {i : Nat} {c : Term} (hi : i ∈ e.usage.constants) (hc : e.decls.constants[i]? = some c) :
    ∃ x, t.expr c.expr = .ok x := by
  obtain ⟨constant, -, hconstant⟩ := exists_mem_of_mem_mapM h hi
  obtain ⟨value, hvalue, hconstant⟩ := bind_eq_ok.mp hconstant
  cases (Declarations.constant_eq_ok.mp hvalue).symm.trans hc
  exact (Code.Target.exists_constant_iff.mp ⟨constant, hconstant⟩).2

theorem Writes.exists_function {t : Code.Target} {fs : List Code.Function}
    (h : e.usage.helpers.toList.mapM (fun name ↦ do t.function name (← e.decls.helper name)) =
      .ok fs)
    {n : String} {helper : Helper} (hn : n ∈ e.usage.helpers)
    (hhelper : e.decls.helpers.get? n = some helper) {r : Expr} (hr : r ∈ helper.exprs) :
    ∃ x, t.expr r = .ok x := by
  obtain ⟨f, -, hf⟩ := exists_mem_of_mem_mapM h hn
  obtain ⟨helper', hhelper', hf⟩ := bind_eq_ok.mp hf
  cases (Declarations.find_eq_ok.mp hhelper').symm.trans hhelper
  exact (Code.Target.exists_function_iff.mp ⟨f, hf⟩).2 r hr

/-- The constants and functions that are written come from expressions of recorded code. -/
theorem exists_writes_constant {t : Code.Target} {cs : List Code.Constant}
    (h : e.usage.constants.toList.mapM (fun i ↦ do t.constant i (← e.decls.constant i)) = .ok cs)
    {c : Code.Constant} (hc : c ∈ cs) : ∃ r, e.Writes false r ∧ t.expr r = .ok c.value := by
  obtain ⟨i, hi, hc⟩ := (mem_mapM h).mp hc
  obtain ⟨value, hvalue, hc⟩ := bind_eq_ok.mp hc
  exact ⟨value.expr, .constant hi (Declarations.constant_eq_ok.mp hvalue),
    (Code.Target.origin_constant hc).2⟩

theorem exists_writes_function {t : Code.Target} {fs : List Code.Function}
    (hleave : ∀ v, ∀ x ∈ Code.exprsAll (t.leave v), v = some x)
    (h : e.usage.helpers.toList.mapM (fun name ↦ do t.function name (← e.decls.helper name)) =
      .ok fs)
    {f : Code.Function} (hf : f ∈ fs) {x : Code.Expr} (hx : x ∈ Code.exprsAll f.body) :
    ∃ r, e.Writes true r ∧ t.expr r = .ok x := by
  obtain ⟨name, hname, hf⟩ := (mem_mapM h).mp hf
  obtain ⟨helper, hhelper, hf⟩ := bind_eq_ok.mp hf
  obtain ⟨r, hr, hexpr⟩ := Code.Target.origin_function hleave hf hx
  exact ⟨r, .helper hname (Declarations.find_eq_ok.mp hhelper) hr, hexpr⟩

/-! ### Locations -/

theorem mem_of_varyingsByLocation {n : String} {i : Nat} (h : (n, i) ∈ e.varyingsByLocation) :
    n ∈ e.usage.varyings ∧ i = (e.layout.varying? n).getD 0 := by
  obtain ⟨m, hm, heq⟩ := List.mem_map.mp (Layout.mem_sortByLocation.mp h)
  cases heq
  exact ⟨hm, rfl⟩

theorem mem_of_outputsByLocation {n : String} {i : Nat} (h : (n, i) ∈ e.outputsByLocation) :
    n ∈ e.usage.outputs ∧ i = e.outputLocation n := by
  obtain ⟨m, hm, heq⟩ := List.mem_map.mp (Layout.mem_sortByLocation.mp h)
  cases heq
  exact ⟨hm, rfl⟩

end Emission

/-! ### Layouts -/

namespace Layout

variable {d : Declarations} {vertex fragment : Option Usage} {l : Layout}

/-- A buffer is given to those who ask for one. -/
theorem Fits.need_eq_buffer_iff {r : BindingRequest} {s : Slots} (h : Fits r s) :
    r.need = .buffer ↔ ∃ point, s = .buffer point := by
  obtain ⟨name, need, group, index⟩ := r
  cases need <;> cases s <;> simp_all [Fits]

theorem Allocated.exists_point (h : Allocated d vertex fragment l) (hd : d.NamesApart)
    (hbound : ∀ a ∈ bothSides vertex fragment (·.bindings), Bound d a) {n : String} {a : Handle}
    (ha : a ∈ bothSides vertex fragment (·.bindings))
    (hn : a = .uniform n ∨ a = .uniformStruct n) : ∃ point, l.uniform? n = some point := by
  obtain ⟨r, s, hrequest, hfits, hhas⟩ := h.exists_slots hd hbound ha
  have hr : r.name = n ∧ r.need = .buffer := by
    rcases hn with rfl | rfl
    · rw [requestOf] at hrequest
      split at hrequest
      · cases hrequest
        exact ⟨rfl, rfl⟩
      · cases hrequest
    · rw [requestOf] at hrequest
      split at hrequest
      · cases hrequest
        exact ⟨rfl, rfl⟩
      · cases hrequest
  obtain ⟨point, rfl⟩ := hfits.need_eq_buffer_iff.mp hr.2
  rw [hr.1] at hhas
  obtain hpoint | ⟨⟩ := hhas
  exact ⟨point, hpoint⟩

theorem Allocated.exists_samplerSlots (h : Allocated d vertex fragment l) (hd : d.NamesApart)
    (hbound : ∀ a ∈ bothSides vertex fragment (·.bindings), Bound d a) {n : String}
    (ha : .sampler n ∈ bothSides vertex fragment (·.bindings)) :
    ∃ slots, l.sampler? n = some slots := by
  obtain ⟨r, s, hrequest, hfits, hhas⟩ := h.exists_slots hd hbound ha
  have hr : r.name = n ∧ r.need ≠ .buffer := by
    rw [requestOf] at hrequest
    split at hrequest
    · cases hrequest
      refine ⟨rfl, ?_⟩
      dsimp only [bindingRequest]
      split <;> simp
    · cases hrequest
  rw [hr.1] at hhas
  cases hhas with
  | buffer hpoint => exact (hr.2 (hfits.need_eq_buffer_iff.mpr ⟨_, rfl⟩)).elim
  | texture hslots => exact ⟨_, hslots⟩

end Layout

/-! ### Entry points -/

namespace Program

variable {p : Program} {name : String} {peer : Option String} {e : Emission}

theorem Reachable.complete (hp : p.Reachable) (he : p.emissionOf name peer = .ok e) :
    e.Complete := by
  obtain ⟨vertex, fragment, hallocated, hdeclared, hside⟩ := hp.allocated he
  obtain ⟨hdecls, -, -, -, hu⟩ := hp.emission he
  have happart : e.decls.NamesApart := hdecls ▸ hp.sound.apart
  rw [← hdecls] at hu
  have hbound := Layout.bound_of_sides hdeclared
  have hbindings : ∀ a ∈ e.usage.bindings,
      a ∈ Layout.bothSides vertex fragment (·.bindings) := by
    intro a ha
    rw [Layout.mem_bothSides]
    rcases hside with ⟨-, hside⟩ | ⟨-, hside⟩
    · exact .inl ⟨_, hside, ha⟩
    · exact .inr ⟨_, hside, ha⟩
  refine ⟨Usage.declared_of_eq_ok hu, Usage.referring_of_eq_ok hu, (hp.supplied he).attributes,
    ?_, ?_⟩
  · rintro n (hn | hn)
    · exact hallocated.exists_point happart hbound (hbindings _ hn) (.inl rfl)
    · exact hallocated.exists_point happart hbound (hbindings _ hn) (.inr rfl)
  · intro n hn
    exact hallocated.exists_samplerSlots happart hbound (hbindings _ hn)

theorem Reachable.located (hp : p.Reachable) (he : p.emissionOf name peer = .ok e) :
    e.Located := by
  obtain ⟨vertex, fragment, hallocated, -, hside⟩ := hp.allocated he
  obtain ⟨hdecls, -, -, -, hu⟩ := hp.emission he
  rw [← hdecls] at hu
  have hstage := Usage.stageOnly_of_eq_ok hu
  have hattributes : ∀ n ∈ e.usage.attributes, ∃ i, e.layout.attribute? n = some i := by
    intro n hn
    rcases hside with ⟨-, rfl⟩ | ⟨hfragment, -⟩
    · exact (Layout.located_of_allocateLocations e.usage.attributes.nodup
        hallocated.attributes).exists_lookup hn
    · cases hfragment.symm.trans (hstage.attributes n hn)
  have hvaryings : ∀ n ∈ e.usage.varyings, ∃ i, e.layout.varying? n = some i := by
    intro n hn
    apply (Layout.located_of_allocateLocations (Layout.nodup_bothSides _ _ _)
      hallocated.varyings).exists_lookup
    rw [Layout.mem_bothSides]
    rcases hside with ⟨-, hside⟩ | ⟨-, hside⟩
    · exact .inl ⟨_, hside, hn⟩
    · exact .inr ⟨_, hside, hn⟩
  have houtputs : ∀ n ∈ e.usage.outputs, ∃ i, e.layout.output? n = some i := by
    intro n hn
    rcases hside with ⟨hvertex, -⟩ | ⟨-, rfl⟩
    · cases hvertex.symm.trans (hstage.outputs n hn)
    · exact (Layout.located_of_allocateLocations e.usage.outputs.nodup
        hallocated.outputs).exists_lookup hn
  refine ⟨hattributes, ?_, ?_, ?_, ?_⟩
  · intro n i hmem
    obtain ⟨hn, rfl⟩ := Emission.mem_of_varyingsByLocation hmem
    obtain ⟨i, hi⟩ := hvaryings n hn
    rw [hi, Option.getD_some]
  · intro n i hmem
    obtain ⟨hn, rfl⟩ := Emission.mem_of_outputsByLocation hmem
    obtain ⟨i, hi⟩ := houtputs n hn
    rw [hi, Emission.outputLocation, hi, Option.getD_some]
  · intro n hprimary
    rcases e.primaryOutput?_cases with ⟨-, hnone⟩ | ⟨m, hm, hsome⟩
    · cases hnone.symm.trans hprimary
    · cases hsome.symm.trans hprimary
      exact houtputs n hm
  · intro inHelper r hr n hn
    exact houtputs n (hr.holds hu hn)

/-- An entry point that has a layout is ready for emission. -/
theorem Reachable.exists_emission (hp : p.Reachable) {l : Layout}
    (h : p.layoutOf name peer = .ok l) : ∃ e, p.emissionOf name peer = .ok e ∧ e.layout = l := by
  obtain ⟨u, hu, -⟩ := bind_eq_ok.mp h
  obtain ⟨stage, body, hstage, hbody, -⟩ := hp.fresh name u hu
  refine ⟨⟨p.toDeclarations, name, stage, body, u, l⟩, ?_, rfl⟩
  rw [emissionOf, hu, ok_bind, h, ok_bind, hstage, ok_bind, hbody]
  rfl

end Program

end Shading
