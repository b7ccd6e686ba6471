import Shading.Proofs.Emission.Lookups

/-!
# What GLSL cannot write

Only version 1.00 lacks anything, and what it lacks is all that can go wrong, as long as everything
that an entry point uses is declared.
-/

namespace Shading.Glsl

/-- The oldest version lacks something. -/
def Unavailable (v : Version) (err : Error) : Prop :=
  v = .es100 ∧ err.Invalid

/-! ### Names -/

theorem failsOnly_spellPrim (v : Version) (p : Prim) :
    FailsOnly (Unavailable v) (spellPrim v p) := by
  cases v with
  | es300 => exact failsOnly_ok _
  | es100 =>
      unfold spellPrim
      split
      · exact failsOnly_ok _
      · exact failsOnly_error ⟨rfl, rfl⟩

theorem failsOnly_typeName (v : Version) (t : Ty) :
    FailsOnly (Unavailable v) (typeName v t) := by
  apply (failsOnly_spellPrim v t.prim).bind
  intro _ _
  exact failsOnly_ok _

theorem failsOnly_samplerType (v : Version) (kind : SamplerKind) :
    FailsOnly (Unavailable v) (samplerType v kind) := by
  cases v with
  | es300 => cases kind <;> exact failsOnly_ok _
  | es100 =>
      cases kind with
      | plane => exact failsOnly_ok _
      | volume => exact failsOnly_ok _
      | _ => exact failsOnly_error ⟨rfl, rfl⟩

theorem failsOnly_textureFunction (v : Version) (kind : SamplerKind) :
    FailsOnly (Unavailable v) (textureFunction v kind) := by
  cases v with
  | es300 => exact failsOnly_ok _
  | es100 =>
      cases kind with
      | plane => exact failsOnly_ok _
      | volume => exact failsOnly_ok _
      | _ => exact failsOnly_error ⟨rfl, rfl⟩

theorem failsOnly_lowerLiteral (v : Version) (l : Literal) :
    FailsOnly (Unavailable v) (lowerLiteral v l) := by
  cases v with
  | es300 => exact failsOnly_ok _
  | es100 =>
      unfold lowerLiteral
      split
      · exact failsOnly_error ⟨rfl, rfl⟩
      · exact failsOnly_error ⟨rfl, rfl⟩
      · exact failsOnly_ok _

theorem failsOnly_calleeName (v : Version) (callee : Callee) :
    FailsOnly (Unavailable v) (calleeName v callee) := by
  cases callee with
  | construct p => exact failsOnly_spellPrim v p
  | texture kind => exact failsOnly_textureFunction v kind
  | _ => exact failsOnly_ok _

/-! ### Expressions -/

theorem failsOnly_lowerHandle (c : Context) (h : Handle) :
    FailsOnly (Unavailable c.version) (lowerHandle c h) := by
  have hindexed : ∀ name, FailsOnly (Unavailable c.version) (lowerBuiltin.indexed c name) := by
    intro name
    unfold lowerBuiltin.indexed
    split
    · next hversion => exact failsOnly_error ⟨hversion, rfl⟩
    · exact failsOnly_ok _
  cases h with
  | builtin b =>
      cases b with
      | vertexId => exact hindexed _
      | instanceId => exact hindexed _
      | _ => exact failsOnly_ok _
  | output n =>
      unfold lowerHandle
      dsimp only
      split <;> exact failsOnly_ok _
  | _ => exact failsOnly_ok _

theorem lowerAll_eq_mapM (c : Context) (es : List Expr) : lowerAll c es = es.mapM (lower c) := by
  induction es with
  | nil => rfl
  | cons e es ih => rw [lowerAll, ih, List.mapM_cons]

theorem failsOnly_lower (c : Context) (e : Expr) :
    FailsOnly (Unavailable c.version) (lower c e) := by
  induction e using Expr.induction_on_children with
  | step e ih =>
      have hall : ∀ {es : List Expr},
          (∀ x ∈ es, FailsOnly (Unavailable c.version) (lower c x)) →
            FailsOnly (Unavailable c.version) (lowerAll c es) := by
        intro es h
        rw [lowerAll_eq_mapM]
        exact FailsOnly.mapM h
      have hone : ∀ {a : Expr} {f : Code.Expr → Code.Expr},
          FailsOnly (Unavailable c.version) (lower c a) →
            FailsOnly (Unavailable c.version) (do return f (← lower c a)) :=
        fun h ↦ h.bind fun _ _ ↦ failsOnly_ok _
      have htwo : ∀ {a b : Expr} {f : Code.Expr → Code.Expr → Code.Expr},
          FailsOnly (Unavailable c.version) (lower c a) →
            FailsOnly (Unavailable c.version) (lower c b) →
              FailsOnly (Unavailable c.version) (do return f (← lower c a) (← lower c b)) :=
        fun ha hb ↦ ha.bind fun _ _ ↦ hb.bind fun _ _ ↦ failsOnly_ok _
      cases e with
      | lit l => exact failsOnly_lowerLiteral c.version l
      | var h => exact failsOnly_lowerHandle c h
      | array type items =>
          apply (failsOnly_typeName c.version type).bind
          intro _ _
          apply (hall ih).bind
          intro _ _
          exact failsOnly_ok _
      | unary op a => exact hone (ih a List.mem_cons_self)
      | swizzle a channels => exact hone (ih a List.mem_cons_self)
      | field a name => exact hone (ih a List.mem_cons_self)
      | binary op a b =>
          exact htwo (ih a List.mem_cons_self) (ih b (List.mem_cons_of_mem _ List.mem_cons_self))
      | index a i =>
          exact htwo (ih a List.mem_cons_self) (ih i (List.mem_cons_of_mem _ List.mem_cons_self))
      | call callee args =>
          have hcall : FailsOnly (Unavailable c.version) (do
              let name ← calleeName c.version callee
              return Code.Expr.call name (← lowerAll c args)) := by
            apply (failsOnly_calleeName c.version callee).bind
            intro _ _
            apply (hall ih).bind
            intro _ _
            exact failsOnly_ok _
          cases callee with
          | texelFetch kind =>
              rw [lower]
              split
              · next hversion => exact failsOnly_error ⟨hversion, rfl⟩
              · apply (hall ih).bind
                intro _ _
                exact failsOnly_ok _
          | construct p => exact hcall
          | intrinsic f => exact hcall
          | texture kind => exact hcall
          | helper name => exact hcall

/-! ### Shaders -/

variable {e : Emission}

theorem failsOnly_inputs (hc : e.Complete) (v : Version) :
    FailsOnly (Unavailable v) (inputs e v) := by
  have hattributes : FailsOnly (Unavailable v)
      (e.usage.attributes.toList.mapM (inputGlobal e v)) := by
    apply FailsOnly.mapM
    intro n hn
    refine FailsOnly.bind (Declarations.failsOnly_find (hc.declared.attributes n hn)) ?_
    intro decl _
    apply (failsOnly_typeName v decl.type).bind
    intro _ _
    exact failsOnly_ok _
  have hvarying : ∀ p ∈ e.varyingsByLocation,
      FailsOnly (Unavailable v) (varyingGlobal e v p.1) := by
    rintro ⟨n, i⟩ hmem
    obtain ⟨hn, -⟩ := Emission.mem_of_varyingsByLocation hmem
    refine FailsOnly.bind (Declarations.failsOnly_find (hc.declared.varyings n hn)) ?_
    intro decl _
    apply (failsOnly_typeName v decl.type).bind
    intro _ _
    exact failsOnly_ok _
  unfold inputs
  split
  · apply hattributes.bind
    intro _ _
    apply (FailsOnly.mapM hvarying).bind
    intro _ _
    exact failsOnly_ok _
  · apply (FailsOnly.mapM hvarying).bind
    intro _ _
    exact failsOnly_ok _

theorem failsOnly_outputs (hc : e.Complete) (v : Version) :
    FailsOnly (Unavailable v) (outputs e v) := by
  unfold outputs
  split
  · split
    · exact failsOnly_ok _
    · apply FailsOnly.mapM
      rintro ⟨n, i⟩ hmem
      obtain ⟨hn, -⟩ := Emission.mem_of_outputsByLocation hmem
      refine FailsOnly.bind (Declarations.failsOnly_find (hc.declared.outputs n hn)) ?_
      intro decl _
      apply (failsOnly_typeName _ decl.type).bind
      intro _ _
      exact failsOnly_ok _
  · exact failsOnly_ok _

theorem failsOnly_structFields (v : Version) (s : StructDef) :
    FailsOnly (Unavailable v) (structFields v s) := by
  apply FailsOnly.mapM
  intro field _
  cases field with
  | value name t =>
      apply (failsOnly_typeName v t).bind
      intro _ _
      exact failsOnly_ok _
  | nested name s length => exact failsOnly_ok _

theorem failsOnly_bindingGlobal (hc : e.Complete) (v : Version) (blocks : List (String × String))
    {h : Handle} (hh : h ∈ e.usage.bindings) :
    FailsOnly (Unavailable v) (bindingGlobal e v blocks h) := by
  rcases (hc.declared.bindings h).mp hh with ⟨n, hn, rfl⟩ | ⟨n, hn, rfl⟩ | ⟨n, hn, rfl⟩
  · refine FailsOnly.bind (Declarations.failsOnly_find (hc.declared.uniforms n hn)) ?_
    intro decl _
    apply (failsOnly_typeName v decl.type).bind
    intro _ _
    exact failsOnly_ok _
  · refine FailsOnly.bind (Declarations.failsOnly_find (hc.declared.uniformStructs n hn)) ?_
    intro decl _
    cases v with
    | es100 => exact failsOnly_ok _
    | es300 =>
        apply (failsOnly_structFields .es300 decl.struct).bind
        intro _ _
        exact failsOnly_ok _
  · refine FailsOnly.bind (Declarations.failsOnly_find (hc.declared.samplers n hn)) ?_
    intro decl _
    apply (failsOnly_samplerType v decl.kind).bind
    intro _ _
    exact failsOnly_ok _

theorem failsOnly_uniforms (hc : e.Complete) (v : Version) :
    FailsOnly (Unavailable v) (uniforms e v) := by
  have hused : FailsOnly (Unavailable v) (usedStructs e) := by
    apply FailsOnly.mapM
    intro n hn
    refine FailsOnly.bind (Declarations.failsOnly_find (hc.declared.uniformStructs n hn)) ?_
    intro _ _
    exact failsOnly_ok _
  apply hused.bind
  intro used _
  have hstructs : FailsOnly (Unavailable v)
      ((declaredStructs v used).mapM (structGlobal v)) := by
    apply FailsOnly.mapM
    intro s _
    apply (failsOnly_structFields v s).bind
    intro _ _
    exact failsOnly_ok _
  apply hstructs.bind
  intro _ _
  apply (FailsOnly.mapM fun h hh ↦ failsOnly_bindingGlobal hc v _ hh).bind
  intro _ _
  exact failsOnly_ok _

/-- Emission fails only if the version lacks something. -/
theorem failsOnly_emit (hc : e.Complete) (o : Options) :
    FailsOnly (Unavailable o.version) (emit e o) := by
  have hexpr : ∀ r, FailsOnly (Unavailable o.version) (lower (context e o.version) r) :=
    failsOnly_lower (context e o.version)
  have htype : ∀ type, FailsOnly (Unavailable o.version) (typeName o.version type) :=
    failsOnly_typeName o.version
  apply (failsOnly_inputs hc o.version).bind
  intro _ _
  apply (failsOnly_outputs hc o.version).bind
  intro _ _
  apply (failsOnly_uniforms hc o.version).bind
  intro _ _
  refine FailsOnly.bind (hc.failsOnly_constants htype fun r _ ↦ hexpr r) ?_
  intro _ _
  refine FailsOnly.bind (hc.failsOnly_functions htype fun r _ ↦ hexpr r) ?_
  intro _ _
  refine FailsOnly.bind (Code.Target.failsOnly_block htype e.body fun r _ ↦ hexpr r) ?_
  intro _ _
  exact failsOnly_ok _

end Shading.Glsl
