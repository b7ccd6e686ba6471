import Shading.Proofs.Emission.StructOrder
import Shading.Proofs.Glsl.Failures

/-!
# What version 1.00 of GLSL lacks

Version 1.00 has no unsigned integers, no matrices with four columns of three rows, two kinds of
samplers only, no texel accesses and no indices of vertices and instances.

Main statement: an entry point that has a layout has a shader in version 1.00 exactly if nothing
that the shader would spell is among these.
-/

namespace Shading

namespace Glsl

/-! ### New constructs -/

/-- Unsigned integers and matrices that are not square came with version 3.00. -/
def isNewPrim : Prim → Bool
  | .vector .uint _ => true
  | .matrix .four3 => true
  | _ => false

/-- The samplers that came with version 3.00. -/
def isNewSampler : SamplerKind → Bool
  | .plane => false
  | .volume => false
  | _ => true

/-- Whether an expression itself, whatever its subexpressions are, came with version 3.00. -/
def isNewExpr : Expr → Bool
  | .lit v => isNewPrim v.prim
  | .array t _ => isNewPrim t.prim
  | .call (.construct p) _ => isNewPrim p
  | .call (.texture kind) _ => isNewSampler kind
  | .call (.texelFetch _) _ => true
  | .var (.builtin .vertexId) => true
  | .var (.builtin .instanceId) => true
  | _ => false

theorem hasPrim_es100 (p : Prim) : hasPrim .es100 p = !isNewPrim p := by
  rcases p with ⟨s, d⟩ | m
  · cases s <;> rfl
  · cases m <;> rfl

theorem exists_spellPrim_iff {p : Prim} :
    (∃ x, spellPrim .es100 p = .ok x) ↔ isNewPrim p = false := by
  rw [spellPrim, hasPrim_es100]
  cases isNewPrim p <;> simp

theorem exists_typeName_iff {t : Ty} :
    (∃ x, typeName .es100 t = .ok x) ↔ isNewPrim t.prim = false :=
  (exists_bind_iff fun _ ↦ ⟨_, rfl⟩).trans exists_spellPrim_iff

theorem exists_samplerType_iff {kind : SamplerKind} :
    (∃ x, samplerType .es100 kind = .ok x) ↔ isNewSampler kind = false := by
  cases kind <;> simp [samplerType, isNewSampler]

theorem exists_textureFunction_iff {kind : SamplerKind} :
    (∃ x, textureFunction .es100 kind = .ok x) ↔ isNewSampler kind = false := by
  cases kind <;> simp [textureFunction, isNewSampler]

theorem exists_lowerLiteral_iff {l : Literal} :
    (∃ x, lowerLiteral .es100 l = .ok x) ↔ isNewPrim l.prim = false := by
  rw [lowerLiteral, hasPrim_es100]
  cases isNewPrim l.prim with
  | false => simp
  | true => cases l.prim <;> simp

/-! ### Expressions -/

section Expressions

variable {c : Context} (hc : c.version = .es100)
include hc

theorem exists_lowerHandle_iff {h : Handle} :
    (∃ x, lowerHandle c h = .ok x) ↔ isNewExpr (.var h) = false := by
  cases h with
  | builtin b => cases b <;> simp [lowerHandle, lowerBuiltin, lowerBuiltin.indexed, isNewExpr, hc]
  | output n => simp [lowerHandle, isNewExpr, hc]
  | _ => simp [lowerHandle, isNewExpr]

theorem exists_lowerCall_iff {callee : Callee} {args : List Expr} :
    (∃ x, lower c (.call callee args) = .ok x) ↔
      isNewExpr (.call callee args) = false ∧ ∃ xs, lowerAll c args = .ok xs := by
  have hcall : (∃ x, (do
      let name ← calleeName c.version callee
      return Code.Expr.call name (← lowerAll c args)) = .ok x) ↔
      (∃ name, calleeName c.version callee = .ok name) ∧ ∃ xs, lowerAll c args = .ok xs :=
    exists_bind_iff_and fun _ ↦ exists_bind_iff fun _ ↦ ⟨_, rfl⟩
  rw [hc] at hcall
  cases callee with
  | texelFetch kind => simp [lower, isNewExpr, hc]
  | construct p =>
      rw [lower.eq_def, hc]
      exact hcall.trans (and_congr_left' exists_spellPrim_iff)
  | texture kind =>
      rw [lower.eq_def, hc]
      exact hcall.trans (and_congr_left' exists_textureFunction_iff)
  | intrinsic f =>
      rw [lower.eq_def, hc]
      exact hcall.trans (and_congr_left' (by simp [calleeName, isNewExpr]))
  | helper name =>
      rw [lower.eq_def, hc]
      exact hcall.trans (and_congr_left' (by simp [calleeName, isNewExpr]))

/-- Version 1.00 has an expression if it has the expression itself and its subexpressions. -/
theorem exists_lower_iff_children (e : Expr) :
    (∃ x, lower c e = .ok x) ↔ isNewExpr e = false ∧ ∀ a ∈ e.children, ∃ x, lower c a = .ok x := by
  have hall : ∀ es, (∃ xs, lowerAll c es = .ok xs) ↔ ∀ a ∈ es, ∃ x, lower c a = .ok x := by
    intro es
    rw [lowerAll_eq_mapM, exists_mapM_iff]
  have hone : ∀ {a : Expr} {f : Code.Expr → Code.Expr},
      (∃ x, (do return f (← lower c a)) = .ok x) ↔ ∃ x, lower c a = .ok x :=
    exists_bind_iff fun _ ↦ ⟨_, rfl⟩
  have htwo : ∀ {a b : Expr} {f : Code.Expr → Code.Expr → Code.Expr},
      (∃ x, (do return f (← lower c a) (← lower c b)) = .ok x) ↔
        (∃ x, lower c a = .ok x) ∧ ∃ x, lower c b = .ok x :=
    exists_bind_iff_and fun _ ↦ exists_bind_iff fun _ ↦ ⟨_, rfl⟩
  cases e with
  | lit l =>
      rw [lower, hc, exists_lowerLiteral_iff]
      simp [isNewExpr, Expr.children]
  | array t items =>
      have harray : (∃ x, lower c (.array t items) = .ok x) ↔
          (∃ x, typeName c.version t = .ok x) ∧ ∃ xs, lowerAll c items = .ok xs :=
        exists_bind_iff_and fun _ ↦ exists_bind_iff fun _ ↦ ⟨_, rfl⟩
      rw [harray, hc, exists_typeName_iff, hall]
      simp [isNewExpr, Expr.children]
  | var h =>
      rw [lower, exists_lowerHandle_iff hc]
      simp [Expr.children]
  | unary op a =>
      rw [lower, hone]
      simp [isNewExpr, Expr.children]
  | binary op a b =>
      rw [lower, htwo]
      simp [isNewExpr, Expr.children]
  | call callee args =>
      rw [exists_lowerCall_iff hc, hall]
      rfl
  | swizzle a channels =>
      rw [lower, hone]
      simp [isNewExpr, Expr.children]
  | field a name =>
      rw [lower, hone]
      simp [isNewExpr, Expr.children]
  | index a i =>
      rw [lower, htwo]
      simp [isNewExpr, Expr.children]

theorem exists_lower_iff (e : Expr) :
    (∃ x, lower c e = .ok x) ↔ ∀ y, e.Within y → isNewExpr y = false := by
  induction e using Expr.induction_on_children with
  | step e ih =>
      rw [exists_lower_iff_children hc]
      constructor
      · rintro ⟨hown, hchildren⟩ y hy
        cases hy with
        | refl => exact hown
        | child ha hy => exact (ih _ ha).mp (hchildren _ ha) y hy
      · intro h
        refine ⟨h e (.refl e), fun a ha ↦ ?_⟩
        exact (ih a ha).mpr fun y hy ↦ h y (.child ha hy)

end Expressions

/-! ### Entry points -/

/-- An entry point shows something that came with version 3.00: in the types of its interface, of
its constants, helpers and variables, in its samplers or in an expression.  The types of its
fragment outputs do not show in version 1.00. -/
inductive ShowsNew (e : Emission) : Prop
  | vertexAttribute {n : String} {decl : AttributeDecl} (hn : n ∈ e.usage.attributes)
      (hdecl : e.decls.attributes.get? n = some decl) (h : isNewPrim decl.type.prim = true)
  | varying {n : String} {decl : VaryingDecl} (hn : n ∈ e.usage.varyings)
      (hdecl : e.decls.varyings.get? n = some decl) (h : isNewPrim decl.type.prim = true)
  | uniform {n : String} {decl : UniformDecl} (hn : n ∈ e.usage.uniforms)
      (hdecl : e.decls.uniforms.get? n = some decl) (h : isNewPrim decl.type.prim = true)
  /-- The structs of a shader are the first definition of every name in the used struct uniforms. -/
  | structField {s : StructDef} {field : String} {t : Ty}
      (hs : (e.usage.dependencies e.decls).find? (·.name == s.name) = some s)
      (hfield : .value field t ∈ s.fields) (h : isNewPrim t.prim = true)
  | sampler {n : String} {decl : SamplerDecl} (hn : n ∈ e.usage.samplers)
      (hdecl : e.decls.samplers.get? n = some decl) (h : isNewSampler decl.kind = true)
  | constant {i : Nat} {c : Term} (hi : i ∈ e.usage.constants)
      (hc : e.decls.constants[i]? = some c) (h : isNewPrim c.type.prim = true)
  /-- A parameter, a result or a variable of a helper. -/
  | helper {n : String} {helper : Helper} {t : Ty} (hn : n ∈ e.usage.helpers)
      (hhelper : e.decls.helpers.get? n = some helper) (ht : t ∈ helper.types)
      (h : isNewPrim t.prim = true)
  | localVar {t : Ty} (ht : t ∈ Block.types e.body) (h : isNewPrim t.prim = true)
  | expr {inHelper : Bool} {r x : Expr} (hr : e.Writes inHelper r) (hx : r.Within x)
      (h : isNewExpr x = true)

variable {e : Emission}

/-- What is done with a declaration succeeds if it does with the one that is found. -/
theorem exists_find_iff {α β : Type} {table : Table α} {kind : DeclKind} {name : String}
    (h : table.contains name = true) {f : α → Except Error β} :
    (∃ b, Declarations.find table kind name >>= f = .ok b) ↔
      ∀ a, table.get? name = some a → ∃ b, f a = .ok b := by
  obtain ⟨a, ha⟩ := Table.exists_get? h
  rw [Declarations.find_eq_ok.mpr ha, ok_bind, ha]
  simp

theorem exists_inputGlobal_iff (hc : e.Complete) {n : String} (hn : n ∈ e.usage.attributes) :
    (∃ g, inputGlobal e .es100 n = .ok g) ↔
      ∀ decl, e.decls.attributes.get? n = some decl → isNewPrim decl.type.prim = false := by
  refine (exists_find_iff (hc.declared.attributes n hn)).trans (forall₂_congr fun decl _ ↦ ?_)
  exact (exists_bind_iff fun _ ↦ ⟨_, rfl⟩).trans exists_typeName_iff

theorem exists_varyingGlobal_iff (hc : e.Complete) {n : String} (hn : n ∈ e.usage.varyings) :
    (∃ g, varyingGlobal e .es100 n = .ok g) ↔
      ∀ decl, e.decls.varyings.get? n = some decl → isNewPrim decl.type.prim = false := by
  refine (exists_find_iff (hc.declared.varyings n hn)).trans (forall₂_congr fun decl _ ↦ ?_)
  exact (exists_bind_iff fun _ ↦ ⟨_, rfl⟩).trans exists_typeName_iff

theorem exists_inputs_iff (hc : e.Complete)
    (hstage : ∀ n ∈ e.usage.attributes, e.stage = .vertex) :
    (∃ gs, inputs e .es100 = .ok gs) ↔
      (∀ n ∈ e.usage.attributes, ∀ decl, e.decls.attributes.get? n = some decl →
        isNewPrim decl.type.prim = false) ∧
      ∀ n ∈ e.usage.varyings, ∀ decl, e.decls.varyings.get? n = some decl →
        isNewPrim decl.type.prim = false := by
  have hvaryings : (∃ gs, e.varyingsByLocation.mapM (fun p ↦ varyingGlobal e .es100 p.1) = .ok gs) ↔
      ∀ n ∈ e.usage.varyings, ∀ decl, e.decls.varyings.get? n = some decl →
        isNewPrim decl.type.prim = false := by
    rw [exists_mapM_iff]
    constructor
    · intro h n hn
      have hmem : (n, (e.layout.varying? n).getD 0) ∈ e.varyingsByLocation :=
        Layout.mem_sortByLocation.mpr (List.mem_map_of_mem hn)
      exact (exists_varyingGlobal_iff hc hn).mp (h _ hmem)
    · rintro h ⟨n, i⟩ hmem
      obtain ⟨hn, -⟩ := Emission.mem_of_varyingsByLocation hmem
      exact (exists_varyingGlobal_iff hc hn).mpr (h n hn)
  rw [← hvaryings]
  cases hentry : e.stage with
  | vertex =>
      have hinputs : (∃ gs, inputs e .es100 = .ok gs) ↔
          (∃ gs, e.usage.attributes.toList.mapM (inputGlobal e .es100) = .ok gs) ∧
            ∃ gs, e.varyingsByLocation.mapM (fun p ↦ varyingGlobal e .es100 p.1) = .ok gs := by
        rw [inputs, hentry]
        exact exists_bind_iff_and fun _ ↦ exists_bind_iff fun _ ↦ ⟨_, rfl⟩
      rw [hinputs, exists_mapM_iff]
      exact and_congr_left' (forall₂_congr fun n hn ↦ exists_inputGlobal_iff hc hn)
  | fragment =>
      have hinputs : (∃ gs, inputs e .es100 = .ok gs) ↔
          ∃ gs, e.varyingsByLocation.mapM (fun p ↦ varyingGlobal e .es100 p.1) = .ok gs := by
        rw [inputs, hentry]
        exact exists_bind_iff fun _ ↦ ⟨_, rfl⟩
      have hnone : ∀ n ∈ e.usage.attributes, ∀ decl, e.decls.attributes.get? n = some decl →
          isNewPrim decl.type.prim = false := by
        intro n hn
        cases hentry.symm.trans (hstage n hn)
      rw [hinputs]
      exact (and_iff_right hnone).symm

theorem exists_structGlobal_iff {s : StructDef} :
    (∃ g, structGlobal .es100 s = .ok g) ↔
      ∀ field t, .value field t ∈ s.fields → isNewPrim t.prim = false := by
  have hfields : (∃ g, structGlobal .es100 s = .ok g) ↔
      ∃ fields, structFields .es100 s = .ok fields :=
    exists_bind_iff fun _ ↦ ⟨_, rfl⟩
  have hvalue : ∀ field t, (∃ x, fieldGlobal .es100 (.value field t) = .ok x) ↔
      isNewPrim t.prim = false :=
    fun _ _ ↦ (exists_bind_iff fun _ ↦ ⟨_, rfl⟩).trans exists_typeName_iff
  rw [hfields, structFields, exists_mapM_iff]
  constructor
  · intro h field t hfield
    exact (hvalue field t).mp (h _ hfield)
  · intro h field hfield
    cases field with
    | value name t => exact (hvalue name t).mpr (h name t hfield)
    | nested name s length => exact ⟨_, rfl⟩

theorem exists_bindingGlobals_iff (hc : e.Complete) (blocks : List (String × String)) :
    (∃ gs, e.usage.bindings.toList.mapM (bindingGlobal e .es100 blocks) = .ok gs) ↔
      (∀ n ∈ e.usage.uniforms, ∀ decl, e.decls.uniforms.get? n = some decl →
        isNewPrim decl.type.prim = false) ∧
      ∀ n ∈ e.usage.samplers, ∀ decl, e.decls.samplers.get? n = some decl →
        isNewSampler decl.kind = false := by
  have huniform : ∀ n ∈ e.usage.uniforms,
      ((∃ gs, bindingGlobal e .es100 blocks (.uniform n) = .ok gs) ↔
        ∀ decl, e.decls.uniforms.get? n = some decl → isNewPrim decl.type.prim = false) := by
    intro n hn
    refine (exists_find_iff (hc.declared.uniforms n hn)).trans (forall₂_congr fun decl _ ↦ ?_)
    exact (exists_bind_iff fun _ ↦ ⟨_, rfl⟩).trans exists_typeName_iff
  have hsampler : ∀ n ∈ e.usage.samplers,
      ((∃ gs, bindingGlobal e .es100 blocks (.sampler n) = .ok gs) ↔
        ∀ decl, e.decls.samplers.get? n = some decl → isNewSampler decl.kind = false) := by
    intro n hn
    refine (exists_find_iff (hc.declared.samplers n hn)).trans (forall₂_congr fun decl _ ↦ ?_)
    exact (exists_bind_iff fun _ ↦ ⟨_, rfl⟩).trans exists_samplerType_iff
  rw [exists_mapM_iff]
  constructor
  · intro h
    refine ⟨fun n hn ↦ (huniform n hn).mp (h _ ?_), fun n hn ↦ (hsampler n hn).mp (h _ ?_)⟩
    · exact (hc.declared.bindings _).mpr (.inl ⟨n, hn, rfl⟩)
    · exact (hc.declared.bindings _).mpr (.inr (.inr ⟨n, hn, rfl⟩))
  · rintro ⟨huniforms, hsamplers⟩ a ha
    rcases (hc.declared.bindings a).mp ha with ⟨n, hn, rfl⟩ | ⟨n, hn, rfl⟩ | ⟨n, hn, rfl⟩
    · exact (huniform n hn).mpr (huniforms n hn)
    · exact (exists_find_iff (hc.declared.uniformStructs n hn)).mpr fun _ _ ↦ ⟨_, rfl⟩
    · exact (hsampler n hn).mpr (hsamplers n hn)

theorem exists_uniforms_iff (hc : e.Complete) :
    (∃ gs, uniforms e .es100 = .ok gs) ↔
      (∀ s, (e.usage.dependencies e.decls).find? (·.name == s.name) = some s →
        ∀ field t, .value field t ∈ s.fields → isNewPrim t.prim = false) ∧
      (∀ n ∈ e.usage.uniforms, ∀ decl, e.decls.uniforms.get? n = some decl →
        isNewPrim decl.type.prim = false) ∧
      ∀ n ∈ e.usage.samplers, ∀ decl, e.decls.samplers.get? n = some decl →
        isNewSampler decl.kind = false := by
  obtain ⟨used, hused⟩ : ∃ used, usedStructs e = .ok used := by
    refine exists_mapM_iff.mpr fun n hn ↦ ?_
    exact (exists_find_iff (hc.declared.uniformStructs n hn)).mpr fun _ _ ↦ ⟨_, rfl⟩
  rw [uniforms, hused, ok_bind]
  refine (exists_bind_iff_and fun _ ↦
    (exists_bind_iff fun _ ↦ ⟨_, rfl⟩).trans (exists_bindingGlobals_iff hc _)).trans ?_
  rw [exists_mapM_iff, declaredStructs_es100 hused]
  apply and_congr_left'
  apply forall_congr'
  intro s
  rw [StructDef.mem_merge_iff, exists_structGlobal_iff]

theorem exists_constants_iff (hc : e.Complete) :
    (∃ cs, constants e .es100 = .ok cs) ↔
      ∀ i ∈ e.usage.constants, ∀ c, e.decls.constants[i]? = some c →
        isNewPrim c.type.prim = false ∧ ∀ x, c.expr.Within x → isNewExpr x = false := by
  rw [constants, exists_mapM_iff]
  refine forall₂_congr fun i hi ↦ ?_
  have hget : e.decls.constants[i]? = some _ :=
    Array.getElem?_eq_getElem (hc.referring.constants i hi)
  rw [Declarations.constant_eq_ok.mpr hget, ok_bind, Code.Target.exists_constant_iff, hget]
  simp only [Option.some.injEq, forall_eq']
  exact and_congr exists_typeName_iff (exists_lower_iff rfl _)

theorem exists_functions_iff (hc : e.Complete) :
    (∃ fs, functions e .es100 = .ok fs) ↔
      ∀ n ∈ e.usage.helpers, ∀ helper, e.decls.helpers.get? n = some helper →
        (∀ t ∈ helper.types, isNewPrim t.prim = false) ∧
          ∀ r ∈ helper.exprs, ∀ x, r.Within x → isNewExpr x = false := by
  rw [functions, exists_mapM_iff]
  refine forall₂_congr fun n hn ↦ ?_
  refine (exists_find_iff (hc.referring.helpers n hn)).trans (forall₂_congr fun helper _ ↦ ?_)
  rw [Code.Target.exists_function_iff]
  exact and_congr (forall₂_congr fun t _ ↦ exists_typeName_iff)
    (forall₂_congr fun r _ ↦ exists_lower_iff rfl r)

theorem exists_main_iff (e : Emission) :
    (∃ code, (target (context e .es100) (.entry e.stage)).block e.body = .ok code) ↔
      (∀ t ∈ Block.types e.body, isNewPrim t.prim = false) ∧
        ∀ r ∈ Block.exprs e.body, ∀ x, r.Within x → isNewExpr x = false := by
  rw [Code.Target.exists_block_iff]
  exact and_congr (forall₂_congr fun t _ ↦ exists_typeName_iff)
    (forall₂_congr fun r _ ↦ exists_lower_iff rfl r)

/-- An entry point has a shader in version 1.00 unless it shows something newer. -/
theorem exists_emit_iff (hc : e.Complete) (hstage : ∀ n ∈ e.usage.attributes, e.stage = .vertex)
    (precision : Option Precision) :
    (∃ s, emit e ⟨.es100, precision⟩ = .ok s) ↔ ¬ ShowsNew e := by
  have hemit : (∃ s, emit e ⟨.es100, precision⟩ = .ok s) ↔
      (∃ gs, inputs e .es100 = .ok gs) ∧ (∃ gs, outputs e .es100 = .ok gs) ∧
        (∃ gs, uniforms e .es100 = .ok gs) ∧ (∃ cs, constants e .es100 = .ok cs) ∧
          (∃ fs, functions e .es100 = .ok fs) ∧
            ∃ code, (target (context e .es100) (.entry e.stage)).block e.body = .ok code :=
    exists_bind_iff_and fun _ ↦ exists_bind_iff_and fun _ ↦ exists_bind_iff_and fun _ ↦
      exists_bind_iff_and fun _ ↦ exists_bind_iff_and fun _ ↦ exists_bind_iff fun _ ↦ ⟨_, rfl⟩
  have houtputs : ∃ gs, outputs e .es100 = .ok gs := by
    cases hentry : e.stage <;> simp [outputs, hentry]
  rw [hemit, exists_inputs_iff hc hstage, exists_uniforms_iff hc, exists_constants_iff hc,
    exists_functions_iff hc, exists_main_iff]
  constructor
  · rintro ⟨⟨hattributes, hvaryings⟩, -, ⟨hstructs, huniforms, hsamplers⟩, hconstants, hhelpers,
      htypes, hexprs⟩ hnew
    have habsurd : ∀ {b : Bool}, b = false → b = true → False := by simp
    cases hnew with
    | vertexAttribute hn hdecl h => exact habsurd (hattributes _ hn _ hdecl) h
    | varying hn hdecl h => exact habsurd (hvaryings _ hn _ hdecl) h
    | uniform hn hdecl h => exact habsurd (huniforms _ hn _ hdecl) h
    | structField hs hfield h => exact habsurd (hstructs _ hs _ _ hfield) h
    | sampler hn hdecl h => exact habsurd (hsamplers _ hn _ hdecl) h
    | constant hi hconstant h => exact habsurd (hconstants _ hi _ hconstant).1 h
    | helper hn hhelper ht h => exact habsurd ((hhelpers _ hn _ hhelper).1 _ ht) h
    | localVar ht h => exact habsurd (htypes _ ht) h
    | expr hr hx h =>
        cases hr with
        | body hr => exact habsurd (hexprs _ hr _ hx) h
        | constant hi hconstant => exact habsurd ((hconstants _ hi _ hconstant).2 _ hx) h
        | helper hn hhelper hr => exact habsurd ((hhelpers _ hn _ hhelper).2 _ hr _ hx) h
  · intro hold
    have hfalse : ∀ {b : Bool}, (b = true → ShowsNew e) → b = false :=
      fun h ↦ Bool.eq_false_iff.mpr fun hb ↦ hold (h hb)
    exact ⟨⟨fun n hn decl hdecl ↦ hfalse (.vertexAttribute hn hdecl),
        fun n hn decl hdecl ↦ hfalse (.varying hn hdecl)⟩, houtputs,
      ⟨fun s hs field t hfield ↦ hfalse (.structField hs hfield),
        fun n hn decl hdecl ↦ hfalse (.uniform hn hdecl),
        fun n hn decl hdecl ↦ hfalse (.sampler hn hdecl)⟩,
      fun i hi c hconstant ↦ ⟨hfalse (.constant hi hconstant),
        fun x hx ↦ hfalse (.expr (.constant hi hconstant) hx)⟩,
      fun n hn helper hhelper ↦ ⟨fun t ht ↦ hfalse (.helper hn hhelper ht),
        fun r hr x hx ↦ hfalse (.expr (.helper hn hhelper hr) hx)⟩,
      fun t ht ↦ hfalse (.localVar ht), fun r hr x hx ↦ hfalse (.expr (.body hr) hx)⟩

end Glsl

/-! ### Queries -/

/-- Version 1.00 refuses an entry point that has a layout exactly if the entry point shows something
newer, and always as an invalid argument.  What version 1.00 accepts, version 3.00 accepts too. -/
theorem es100_refuses_iff_showsNew (p : Program) (hp : p.Reachable) (name : String) (l : Layout)
    (hl : ((Query.layout name none).ask p).1 = .ok l) :
    ∃ e, p.emissionOf name none = .ok e ∧ e.decls = p.toDeclarations ∧ e.layout = l ∧
      ((Query.usage name).ask p).1 = .ok e.usage ∧
      (∀ precision, (∃ err, ((Query.glsl name ⟨.es100, precision⟩).ask p).1 = .error err) ↔
        Glsl.ShowsNew e) ∧
      (∀ precision err, ((Query.glsl name ⟨.es100, precision⟩).ask p).1 = .error err →
        err.category = .invalidArgument) ∧
      ∀ precision s, ((Query.glsl name ⟨.es100, precision⟩).ask p).1 = .ok s →
        ∀ precision', ∃ s', ((Query.glsl name ⟨.es300, precision'⟩).ask p).1 = .ok s' := by
  rw [(Query.answers_layout name none).ask_eq] at hl
  obtain ⟨e, he, hlayout⟩ := hp.exists_emission hl
  obtain ⟨hdecls, -, husage, -, hu⟩ := hp.emission he
  have hcomplete := hp.complete he
  have hask : ∀ o, ((Query.glsl name o).ask p).1 = Glsl.emit e o := by
    intro o
    rw [(Query.answers_glsl name o).ask_eq, he, ok_bind]
  refine ⟨e, he, hdecls, hlayout, ((Query.answers_usage name).ask_eq p).trans husage, ?_, ?_, ?_⟩
  · intro precision
    rw [hask, exists_error_iff, Glsl.exists_emit_iff hcomplete
      (Usage.stageOnly_of_eq_ok hu).attributes precision, not_not]
  · intro precision err herr
    rw [hask] at herr
    exact (Glsl.failsOnly_emit hcomplete _ err herr).2
  · intro _ _ _ precision'
    rw [hask]
    apply exists_ok_of_failsOnly (Glsl.failsOnly_emit hcomplete _)
    rintro err ⟨hversion, -⟩
    cases hversion

/-- Two entry points that write an unsigned output, one of them from a variable of its type. -/
def tagged : List Action :=
  let tag := Ty.ofPrim (.vector .uint .one)
  [.uniform "level" .int ⟨0, none⟩, .output "tag" tag none,
    .entry "mask" .fragment
      (Recorder.set (.ofHandle tag (.output "tag")) (.ofHandle .int (.uniform "level"))),
    .entry "count" .fragment do
      let n ← Recorder.declare tag
      Recorder.set (.ofHandle tag (.output "tag")) n]

/-- The type of an output does not show, the type of a variable does. -/
theorem es100_refuses_iff_showsNew_tagged :
    ∃ e e' s err, (Action.run tagged).emissionOf "mask" none = .ok e ∧ ¬ Glsl.ShowsNew e ∧
      ((Query.glsl "mask" ⟨.es100, none⟩).ask (Action.run tagged)).1 = .ok s ∧
      (Action.run tagged).emissionOf "count" none = .ok e' ∧ Glsl.ShowsNew e' ∧
      ((Query.glsl "count" ⟨.es100, none⟩).ask (Action.run tagged)).1 = .error err ∧
      err.category = .invalidArgument ∧
      ∃ s', ((Query.glsl "mask" ⟨.es300, none⟩).ask (Action.run tagged)).1 = .ok s' := by
  have hrun : Except.toOption (do
      let l ← ((Query.layout "mask" none).ask (Action.run tagged)).1
      let l' ← ((Query.layout "count" none).ask (Action.run tagged)).1
      let s ← ((Query.glsl "mask" ⟨.es100, none⟩).ask (Action.run tagged)).1
      return ((Query.glsl "count" ⟨.es100, none⟩).ask (Action.run tagged)).1.toOption.isNone) =
        some true := by
    decide +kernel
  obtain ⟨l, hl, hrun⟩ := bind_eq_ok.mp (eq_ok_of_toOption hrun)
  obtain ⟨l', hl', hrun⟩ := bind_eq_ok.mp hrun
  obtain ⟨s, hs, hrun⟩ := bind_eq_ok.mp hrun
  have hreachable := Action.reachable_run tagged
  obtain ⟨e, he, -, -, -, hmask, -, hnewer⟩ :=
    es100_refuses_iff_showsNew _ hreachable "mask" l hl
  obtain ⟨e', he', -, -, -, hcount, hinvalid, -⟩ :=
    es100_refuses_iff_showsNew _ hreachable "count" l' hl'
  have hold : ¬ Glsl.ShowsNew e := by
    rw [← hmask none, exists_error_iff, not_not]
    exact ⟨s, hs⟩
  have hfails :
      ¬ ∃ s, ((Query.glsl "count" ⟨.es100, none⟩).ask (Action.run tagged)).1 = .ok s := by
    rintro ⟨s', hs'⟩
    have hnone := Except.ok.inj hrun
    rw [hs'] at hnone
    cases hnone
  obtain ⟨err, herr⟩ := exists_error_iff.mpr hfails
  exact ⟨e, e', s, err, he, hold, hs, he', (hcount none).mp ⟨err, herr⟩, herr,
    hinvalid none err herr, hnewer none s hs none⟩

end Shading
