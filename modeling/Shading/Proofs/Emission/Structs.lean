import Shading.Proofs.Code.Typing
import Shading.Proofs.Glsl.Closed
import Shading.Proofs.Wgsl.Interface

/-!
# Emitted structs

A shader or a module declares one struct for every struct name in the struct uniforms that it uses.
If the definitions of a struct uniform are the known ones of their names, then they are the ones
that are declared.
-/

namespace Shading

/-! ### One definition for every name -/

/-- If names differ, there is one member of each name. -/
theorem filter_eq_singleton {α : Type} {key : α → String} {xs : List α}
    (hnames : (xs.map key).Nodup) {a : α} (ha : a ∈ xs) :
    xs.filter (fun x ↦ key x == key a) = [a] := by
  induction xs with
  | nil => cases ha
  | cons x xs ih =>
      rw [List.map_cons, List.nodup_cons] at hnames
      rcases List.mem_cons.mp ha with rfl | ha
      · have hrest : ∀ x ∈ xs, ¬ (key x == key a) = true := by
          intro x hx heq
          exact hnames.1 (List.mem_map.mpr ⟨x, hx, eq_of_beq heq⟩)
        rw [List.filter_cons, if_pos (beq_self_eq_true _), List.filter_eq_nil_iff.mpr hrest]
      · have hne : ¬ (key x == key a) = true := by
          intro heq
          exact hnames.1 (List.mem_map.mpr ⟨a, ha, (eq_of_beq heq).symm⟩)
        rw [List.filter_cons, if_neg hne, ih hnames.2 ha]

/-- The dependencies of every declared struct uniform are the known definitions of their names. -/
def Declarations.Registers (d : Declarations) : Prop :=
  ∀ name u, d.uniformStructs.get? name = some u →
    ∀ s ∈ u.struct.withDependencies, d.structs.get? s.name = some s

/-- When known definitions are merged, the result has each of them once. -/
theorem StructDef.filter_merge {d : Declarations} {given : List StructDef}
    (h : ∀ s ∈ given, d.structs.get? s.name = some s) {s : StructDef} (hs : s ∈ given) :
    (merge [] given).filter (fun t ↦ t.name == s.name) = [s] := by
  have hgathers := gathers_merge [] given
  apply filter_eq_singleton (hgathers.nodup List.nodup_nil)
  apply hgathers.mem_of_given hs
  intro t ht hname
  have ht := h t (ht.resolve_left List.not_mem_nil)
  rw [hname, h s hs] at ht
  exact (Option.some.inj ht).symm

/-! ### Modules -/

namespace Wgsl

variable {e : Emission} {o : Options} {m : Module}

def Struct.members (s : Struct) : String × List (String × Code.TypeName) :=
  (s.name, s.fields.map fun f ↦ (f.name, f.type))

/-- What a module says about its uniforms and structs, those of the interface included. -/
def Module.scheme (m : Module) : Code.Scheme where
  uniforms := m.resources.map fun r ↦ (r.name, r.type)
  blocks := []
  structs := (m.structs ++ m.interface).map Struct.members

theorem members_structOf (s : StructDef) : (structOf s).members = (s.name, s.members) := by
  have hfields : ∀ f : Field, ((fieldMember f).name, (fieldMember f).type) =
      (f.name, f.memberType) := fun f ↦ by cases f <;> rfl
  simp only [Struct.members, structOf, List.map_map, StructDef.members]
  congr 1
  exact List.map_congr_left fun f _ ↦ hfields f

/-- The structs of a module are merged from the dependencies of what is used. -/
theorem structs_eq_ok {ss : List Struct} (h : structs e = .ok ss) :
    ∃ used, e.usage.uniformStructs.toList.mapM e.decls.uniformStruct = .ok used ∧
      ss = (StructDef.merge [] (used.flatMap fun u ↦ u.struct.withDependencies)).map structOf := by
  obtain ⟨used, hused, h⟩ := bind_eq_ok.mp h
  cases h
  exact ⟨used, hused, by rw [StructDef.foldl_merge]⟩

/-- A used struct uniform is a resource of the type of its struct. -/
theorem mem_resources_of_struct {rs : List Resource} (h : resources e = .ok rs)
    (hu : e.usage.Declared e.decls) {name : String} {u : StructUniformDecl}
    (hname : name ∈ e.usage.uniformStructs) (hdecl : e.decls.uniformStructs.get? name = some u) :
    (name, .named u.struct.name) ∈ rs.map fun r ↦ (r.name, r.type) := by
  obtain ⟨lists, hlists, hall⟩ := bind_eq_ok.mp h
  have hbinding : Handle.uniformStruct name ∈ e.usage.bindings :=
    (hu.bindings _).mpr (.inr (.inl ⟨name, hname, rfl⟩))
  obtain ⟨own, hown, hbind⟩ := exists_mem_of_mem_mapM hlists hbinding
  obtain ⟨decl, hfind, hbind⟩ := bind_eq_ok.mp hbind
  obtain ⟨point, -, hbind⟩ := bind_eq_ok.mp hbind
  cases (Declarations.find_eq_ok.mp hfind).symm.trans hdecl
  cases hbind
  rw [List.mem_map, ← Except.ok.inj hall]
  exact ⟨_, List.mem_flatten.mpr ⟨_, hown, List.mem_cons_self⟩, rfl⟩

theorem serves_of_emit (h : emit e o = .ok m) (hd : e.decls.Registers)
    (hu : e.usage.Declared e.decls) {name : String} {u : StructUniformDecl}
    (hname : name ∈ e.usage.uniformStructs) (hdecl : e.decls.uniformStructs.get? name = some u)
    (hcoherent : StructDef.Coherent u.struct.within)
    (hfree : ∀ t ∈ m.interface, ∀ d ∈ u.struct.within, t.name ≠ d.name) :
    m.scheme.Serves name u.struct := by
  obtain ⟨hstructs, hresources, -, -⟩ := emit_eq_ok h
  obtain ⟨used, hused, hmerged⟩ := structs_eq_ok hstructs
  have hregistered : ∀ s ∈ used.flatMap fun u ↦ u.struct.withDependencies,
      e.decls.structs.get? s.name = some s := by
    intro s hs
    obtain ⟨u', hu', hs⟩ := List.mem_flatMap.mp hs
    obtain ⟨name', -, hfind⟩ := (mem_mapM hused).mp hu'
    exact hd name' u' (Declarations.find_eq_ok.mp hfind) s hs
  have hdefines : ∀ d ∈ u.struct.within, m.scheme.Defines d := by
    intro d hd
    have hgiven : d ∈ used.flatMap fun u ↦ u.struct.withDependencies := by
      apply List.mem_flatMap.mpr
      refine ⟨u, ?_, (StructDef.mem_withDependencies hcoherent).mpr hd⟩
      exact (mem_mapM hused).mpr ⟨name, hname, Declarations.find_eq_ok.mpr hdecl⟩
    have hone := StructDef.filter_merge hregistered hgiven
    have hinterface : m.interface.filter (fun t ↦ t.name == d.name) = [] := by
      rw [List.filter_eq_nil_iff]
      exact fun t ht heq ↦ hfree t ht d hd (eq_of_beq heq)
    have hfilter : (m.structs ++ m.interface).filter (fun t ↦ t.name == d.name) = [structOf d] := by
      rw [List.filter_append, hinterface, List.append_nil, hmerged, List.filter_map]
      exact congrArg (List.map structOf) hone
    rw [Code.Scheme.Defines, Module.scheme, List.filter_map, ← members_structOf]
    exact congrArg (List.map Struct.members) hfilter
  have hresource : (name, .named u.struct.name) ∈ m.scheme.uniforms :=
    mem_resources_of_struct hresources hu hname hdecl
  exact ⟨.inl ⟨hresource, hdefines _ u.struct.mem_within_self⟩, fun n d l hnested t ht ↦
    hdefines t (StructDef.within_trans ht (StructDef.within_nested hnested))⟩

end Wgsl

/-! ### Shaders -/

namespace Glsl

variable {e : Emission} {o : Options} {v : Version} {s : Shader}

def Global.uniform? : Global → Option (String × Code.TypeName)
  | .uniform type name => some (name, type)
  | _ => none

def Global.block? : Global → Option (String × List (String × Code.TypeName))
  | .block _ fields name => some (name, fields.map Prod.swap)
  | _ => none

def Global.struct? : Global → Option (String × List (String × Code.TypeName))
  | .struct name fields => some (name, fields.map Prod.swap)
  | _ => none

/-- What a shader says about its uniforms and structs. -/
def Shader.scheme (s : Shader) : Code.Scheme where
  uniforms := s.uniforms.filterMap Global.uniform?
  blocks := s.uniforms.filterMap Global.block?
  structs := s.uniforms.filterMap Global.struct?

theorem swap_structFields {d : StructDef} {fields : List (Code.TypeName × String)}
    (h : structFields v d = .ok fields) : fields.map Prod.swap = d.members := by
  apply map_mapM h
  intro f _ field hf
  cases f with
  | value name t =>
      obtain ⟨type, htype, hf⟩ := bind_eq_ok.mp hf
      cases hf
      rw [eq_ofTy_of_typeName htype]
      rfl
  | nested name t length =>
      cases hf
      rfl

theorem struct?_structGlobal {d : StructDef} {g : Global} (h : structGlobal v d = .ok g) :
    g.struct? = some (d.name, d.members) := by
  obtain ⟨fields, hfields, h⟩ := bind_eq_ok.mp h
  cases h
  rw [Global.struct?, swap_structFields hfields]

theorem struct?_bindingGlobal {blocks : List (String × String)} {a : Handle} {gs : List Global}
    (h : bindingGlobal e v blocks a = .ok gs) : gs.filterMap Global.struct? = [] := by
  cases a with
  | uniform name =>
      obtain ⟨decl, -, h⟩ := bind_eq_ok.mp h
      obtain ⟨type, -, h⟩ := bind_eq_ok.mp h
      cases h
      rfl
  | uniformStruct name =>
      obtain ⟨decl, -, h⟩ := bind_eq_ok.mp h
      cases v with
      | es100 =>
          cases h
          rfl
      | es300 =>
          obtain ⟨fields, -, h⟩ := bind_eq_ok.mp h
          cases h
          rfl
  | sampler name =>
      obtain ⟨decl, -, h⟩ := bind_eq_ok.mp h
      obtain ⟨type, -, h⟩ := bind_eq_ok.mp h
      cases h
      rfl
  | _ =>
      cases h
      rfl

theorem declaredStructs_eq (v : Version) (used : List (String × StructDef)) :
    declaredStructs v used = StructDef.merge [] (used.flatMap fun u ↦ neededStructs v u.2) :=
  StructDef.foldl_merge _ _ _

/-- The structs of a shader are merged from those that what is used needs. -/
theorem structs_of_uniforms {gs : List Global} (h : uniforms e v = .ok gs) :
    ∃ used, usedStructs e = .ok used ∧ gs.filterMap Global.struct? =
      (declaredStructs v used).map fun d ↦ (d.name, d.members) := by
  obtain ⟨used, hused, h⟩ := bind_eq_ok.mp h
  obtain ⟨declared, hdeclared, h⟩ := bind_eq_ok.mp h
  obtain ⟨bindings, hbindings, h⟩ := bind_eq_ok.mp h
  cases h
  refine ⟨used, hused, ?_⟩
  rw [List.filterMap_append, List.filterMap_append,
    filterMap_mapM hdeclared fun d _ g ↦ struct?_structGlobal,
    filterMap_mapM_flatten hbindings fun a _ gs ↦ struct?_bindingGlobal, List.filterMap_eq_map',
    List.flatMap_eq_nil_iff.mpr fun _ _ ↦ rfl, List.append_nil]
  split <;> rfl

theorem mem_neededStructs {d : StructDef} {t : StructDef} {n : String} {l : Option Nat}
    (hcoherent : StructDef.Coherent d.within) (hnested : .nested n t l ∈ d.fields) {x : StructDef}
    (hx : x ∈ t.within) (v : Version) : x ∈ neededStructs v d := by
  obtain ⟨inner, hlist, hinner⟩ := StructDef.exists_withDependencies_eq hcoherent
  have hmem : x ∈ inner := (hinner x).mpr ⟨n, t, l, hnested, hx⟩
  cases v with
  | es100 =>
      rw [neededStructs, hlist]
      exact List.mem_append_left _ hmem
  | es300 =>
      rw [neededStructs, hlist, List.dropLast_concat]
      exact hmem

theorem mem_withDependencies_of_needed {d x : StructDef} (h : x ∈ neededStructs v d) :
    x ∈ d.withDependencies := by
  cases v with
  | es100 => exact h
  | es300 => exact List.mem_of_mem_dropLast h

/-- A used struct uniform is declared, in version 3.00 as a block. -/
theorem mem_uniforms_of_struct {gs : List Global} (h : uniforms e v = .ok gs)
    (hu : e.usage.Declared e.decls) {name : String} {u : StructUniformDecl}
    (hname : name ∈ e.usage.uniformStructs) (hdecl : e.decls.uniformStructs.get? name = some u) :
    v = .es100 ∧ .uniform (.named u.struct.name) name ∈ gs ∨
      v = .es300 ∧
        ∃ b fields, structFields v u.struct = .ok fields ∧ .block b fields name ∈ gs := by
  obtain ⟨used, -, h⟩ := bind_eq_ok.mp h
  obtain ⟨declared, -, h⟩ := bind_eq_ok.mp h
  obtain ⟨bindings, hbindings, h⟩ := bind_eq_ok.mp h
  have hbinding : Handle.uniformStruct name ∈ e.usage.bindings :=
    (hu.bindings _).mpr (.inr (.inl ⟨name, hname, rfl⟩))
  obtain ⟨own, hown, hbind⟩ := exists_mem_of_mem_mapM hbindings hbinding
  have hmem : ∀ g ∈ own, g ∈ gs := by
    intro g hg
    rw [← Except.ok.inj h]
    exact List.mem_append_right _ (List.mem_flatten.mpr ⟨own, hown, hg⟩)
  obtain ⟨decl, hfind, hbind⟩ := bind_eq_ok.mp hbind
  cases (Declarations.find_eq_ok.mp hfind).symm.trans hdecl
  cases v with
  | es100 =>
      cases hbind
      exact .inl ⟨rfl, hmem _ List.mem_cons_self⟩
  | es300 =>
      obtain ⟨fields, hfields, hbind⟩ := bind_eq_ok.mp hbind
      cases hbind
      exact .inr ⟨rfl, _, fields, hfields, hmem _ List.mem_cons_self⟩

theorem serves_of_emit (h : emit e o = .ok s) (hd : e.decls.Registers)
    (hu : e.usage.Declared e.decls) {name : String} {u : StructUniformDecl}
    (hname : name ∈ e.usage.uniformStructs) (hdecl : e.decls.uniformStructs.get? name = some u)
    (hcoherent : StructDef.Coherent u.struct.within) : s.scheme.Serves name u.struct := by
  have huniforms := (parts_of_emit h).uniforms
  obtain ⟨used, hused, hstructs⟩ := structs_of_uniforms huniforms
  rw [declaredStructs_eq] at hstructs
  have hregistered : ∀ t ∈ used.flatMap fun u ↦ neededStructs o.version u.2,
      e.decls.structs.get? t.name = some t := by
    intro t ht
    obtain ⟨⟨name', d⟩, hmem, ht⟩ := List.mem_flatMap.mp ht
    obtain ⟨_, -, hpair⟩ := (mem_mapM hused).mp hmem
    obtain ⟨u', hfind, heq⟩ := bind_eq_ok.mp hpair
    cases heq
    exact hd name' u' (Declarations.find_eq_ok.mp hfind) t (mem_withDependencies_of_needed ht)
  have hdefines : ∀ d ∈ neededStructs o.version u.struct, s.scheme.Defines d := by
    intro d hd
    have hgiven : d ∈ used.flatMap fun u ↦ neededStructs o.version u.2 := by
      refine List.mem_flatMap.mpr ⟨(name, u.struct), ?_, hd⟩
      refine (mem_mapM hused).mpr ⟨name, hname, ?_⟩
      exact bind_eq_ok.mpr ⟨u, Declarations.find_eq_ok.mpr hdecl, rfl⟩
    rw [Code.Scheme.Defines, Shader.scheme, hstructs, List.filter_map]
    exact congrArg (List.map _) (StructDef.filter_merge hregistered hgiven)
  refine ⟨?_, fun n d l hnested t ht ↦ hdefines t (mem_neededStructs hcoherent hnested ht _)⟩
  rcases mem_uniforms_of_struct huniforms hu hname hdecl with
    ⟨hv, hmem⟩ | ⟨-, b, fields, hfields, hmem⟩
  · refine .inl ⟨List.mem_filterMap.mpr ⟨_, hmem, rfl⟩, hdefines _ ?_⟩
    rw [hv, neededStructs, StructDef.mem_withDependencies hcoherent]
    exact u.struct.mem_within_self
  · refine .inr (List.mem_filterMap.mpr ⟨_, hmem, ?_⟩)
    rw [Global.block?, swap_structFields hfields]

end Glsl

end Shading
