import Shading.Proofs.Emission.Lookups

/-!
# Emission under more declarations

Layouts, shaders and modules depend on the declarations of what an entry point uses and on no
others, so they stay as they are when something else is declared.
-/

namespace Shading

/-! ### Declarations -/

theorem Table.Keeps.find {α : Type} {t t' : Table α} (h : t.Keeps t') (kind : DeclKind)
    (n : String) : Persists (Declarations.find t kind n) (Declarations.find t' kind n) :=
  fun a ha ↦ Declarations.find_eq_ok.mpr (h n a (Declarations.find_eq_ok.mp ha))

theorem Declarations.Keeps.constant {d d' : Declarations} (h : d.Keeps d') (i : Nat) :
    Persists (d.constant i) (d'.constant i) :=
  fun c hc ↦ constant_eq_ok.mpr (h.constants i c (constant_eq_ok.mp hc))

/-! ### Layouts -/

namespace Layout

variable {d d' : Declarations}

theorem locationRequests_congr {requested requested' : String → Option UInt32}
    {names : List String} (h : ∀ n ∈ names, requested' n = requested n) :
    locationRequests requested' names = locationRequests requested names := by
  apply List.map_congr_left
  intro n hn
  rw [h n hn]

theorem persists_requestOf (h : d.Keeps d') (a : Handle) :
    Persists (requestOf d a) (requestOf d' a) := by
  intro r hr
  cases a with
  | uniform n =>
      rw [requestOf] at hr ⊢
      split at hr
      · next u hu => rwa [h.uniforms n u hu]
      · cases hr
  | uniformStruct n =>
      rw [requestOf] at hr ⊢
      split at hr
      · next u hu => rwa [h.uniformStructs n u hu]
      · cases hr
  | sampler n =>
      rw [requestOf] at hr ⊢
      split at hr
      · next s hs => rwa [h.samplers n s hs]
      · cases hr
  | _ => cases hr

theorem mem_side {α : Type} {side : Option Usage} {select : Usage → List α} {a : α}
    (h : a ∈ (side.map select).getD []) : ∃ u, side = some u ∧ a ∈ select u := by
  cases side with
  | none => cases h
  | some u => exact ⟨u, rfl, h⟩

theorem persists_allocate (h : d.Keeps d') {vertex fragment : Option Usage}
    (hdeclared : ∀ u, vertex = some u ∨ fragment = some u → u.Declared d) :
    Persists (allocate d vertex fragment) (allocate d' vertex fragment) := by
  have hattributes : ∀ n ∈ (vertex.map (·.attributes.toList)).getD [],
      (d'.attributes.get? n).bind (·.location) = (d.attributes.get? n).bind (·.location) := by
    intro n hn
    obtain ⟨u, hu, hn⟩ := mem_side hn
    rw [h.attributes.get?_eq ((hdeclared u (.inl hu)).attributes n hn)]
  have hvaryings : ∀ n ∈ bothSides vertex fragment (·.varyings),
      (d'.varyings.get? n).bind (·.location) = (d.varyings.get? n).bind (·.location) := by
    intro n hn
    rcases mem_bothSides.mp hn with ⟨u, hu, hn⟩ | ⟨u, hu, hn⟩
    · rw [h.varyings.get?_eq ((hdeclared u (.inl hu)).varyings n hn)]
    · rw [h.varyings.get?_eq ((hdeclared u (.inr hu)).varyings n hn)]
  have houtputs : ∀ n ∈ (fragment.map (·.outputs.toList)).getD [],
      (d'.outputs.get? n).bind (·.location) = (d.outputs.get? n).bind (·.location) := by
    intro n hn
    obtain ⟨u, hu, hn⟩ := mem_side hn
    rw [h.outputs.get?_eq ((hdeclared u (.inr hu)).outputs n hn)]
  unfold allocate
  rw [locationRequests_congr hattributes, locationRequests_congr hvaryings,
    locationRequests_congr houtputs]
  apply (Persists.refl _).bind
  intro _ _
  apply (Persists.refl _).bind
  intro _ _
  apply (Persists.refl _).bind
  intro _ _
  apply (Persists.mapM fun a _ ↦ persists_requestOf h a).bind
  intro _ _
  exact .refl _

end Layout

/-- An entry point ready for emission, under other declarations. -/
def Emission.under (e : Emission) (d : Declarations) : Emission :=
  { e with decls := d }

variable {e : Emission} {d : Declarations}

/-! ### Shaders -/

namespace Glsl

theorem any_congr_of_mem {α : Type} {xs : List α} {p q : α → Bool} (h : ∀ x ∈ xs, p x = q x) :
    xs.any p = xs.any q := by
  rw [Bool.eq_iff_iff, List.any_eq_true, List.any_eq_true]
  apply exists_congr
  intro x
  apply and_congr_right
  intro hx
  rw [h x hx]

theorem header_under (h : e.decls.Keeps d) (hu : e.usage.Declared e.decls) (o : Options) :
    header (e.under d) o = header e o := by
  obtain ⟨version, precision⟩ := o
  cases version with
  | es300 => rfl
  | es100 =>
      unfold header
      refine congrArg (· ++ _) (congrArg (· ++ _) ?_)
      congr 2
      apply any_congr_of_mem
      intro n hn
      rw [show (e.under d).decls = d from rfl, h.samplers.get?_eq (hu.samplers n hn)]

theorem persists_inputs (h : e.decls.Keeps d) (v : Version) :
    Persists (inputs e v) (inputs (e.under d) v) := by
  have hattributes : Persists (e.usage.attributes.toList.mapM (inputGlobal e v))
      (e.usage.attributes.toList.mapM (inputGlobal (e.under d) v)) := by
    apply Persists.mapM
    intro n _
    apply (h.attributes.find _ n).bind
    intro decl _
    exact .refl _
  have hvarying : ∀ n, Persists (varyingGlobal e v n) (varyingGlobal (e.under d) v n) := by
    intro n
    apply (h.varyings.find _ n).bind
    intro decl _
    exact .refl _
  unfold inputs
  rw [show (e.under d).stage = e.stage from rfl]
  cases e.stage with
  | vertex =>
      apply hattributes.bind
      intro _ _
      apply (Persists.mapM fun p _ ↦ hvarying p.1).bind
      intro _ _
      exact .refl _
  | fragment =>
      apply (Persists.mapM fun p _ ↦ hvarying p.1).bind
      intro _ _
      exact .refl _

theorem persists_outputs (h : e.decls.Keeps d) (v : Version) :
    Persists (outputs e v) (outputs (e.under d) v) := by
  unfold outputs
  rw [show (e.under d).stage = e.stage from rfl,
    show (e.under d).outputsByLocation = e.outputsByLocation from rfl]
  split
  · split
    · exact .refl _
    · apply Persists.mapM
      rintro ⟨n, i⟩ _
      apply (h.outputs.find _ n).bind
      intro decl _
      exact .refl _
  · exact .refl _

theorem persists_bindingGlobal (h : e.decls.Keeps d) (v : Version)
    (blocks : List (String × String)) (a : Handle) :
    Persists (bindingGlobal e v blocks a) (bindingGlobal (e.under d) v blocks a) := by
  cases a with
  | uniform n =>
      apply (h.uniforms.find _ n).bind
      intro _ _
      exact .refl _
  | uniformStruct n =>
      apply (h.uniformStructs.find _ n).bind
      intro _ _
      exact .refl _
  | sampler n =>
      apply (h.samplers.find _ n).bind
      intro _ _
      exact .refl _
  | _ => exact .refl _

theorem persists_uniforms (h : e.decls.Keeps d) (v : Version) :
    Persists (uniforms e v) (uniforms (e.under d) v) := by
  have hused : Persists (usedStructs e) (usedStructs (e.under d)) := by
    apply Persists.mapM
    intro n _
    apply (h.uniformStructs.find _ n).bind
    intro _ _
    exact .refl _
  apply hused.bind
  intro _ _
  apply (Persists.refl _).bind
  intro _ _
  apply (Persists.mapM fun a _ ↦ persists_bindingGlobal h v _ a).bind
  intro _ _
  exact .refl _

theorem persists_emit (h : e.decls.Keeps d) (hu : e.usage.Declared e.decls) (o : Options) :
    Persists (emit e o) (emit (e.under d) o) := by
  unfold emit
  rw [header_under h hu]
  apply (persists_inputs h _).bind
  intro _ _
  apply (persists_outputs h _).bind
  intro _ _
  apply (persists_uniforms h _).bind
  intro _ _
  have hconstants : Persists (constants e o.version) (constants (e.under d) o.version) := by
    apply Persists.mapM
    intro i _
    apply (h.constant i).bind
    intro _ _
    exact .refl _
  apply hconstants.bind
  intro _ _
  have hfunctions : Persists (functions e o.version) (functions (e.under d) o.version) := by
    apply Persists.mapM
    intro n _
    apply (h.helpers.find _ n).bind
    intro _ _
    exact .refl _
  apply hfunctions.bind
  intro _ _
  exact .refl _

end Glsl

/-! ### Modules -/

namespace Wgsl

theorem persists_bindingResources (h : e.decls.Keeps d) (a : Handle) :
    Persists (bindingResources e a) (bindingResources (e.under d) a) := by
  cases a with
  | uniform n =>
      apply (h.uniforms.find _ n).bind
      intro _ _
      exact .refl _
  | uniformStruct n =>
      apply (h.uniformStructs.find _ n).bind
      intro _ _
      exact .refl _
  | sampler n =>
      apply (h.samplers.find _ n).bind
      intro _ _
      exact .refl _
  | _ => exact .refl _

theorem persists_varyingFields (h : e.decls.Keeps d) :
    Persists (varyingFields e) (varyingFields (e.under d)) := by
  apply Persists.mapM
  rintro ⟨n, i⟩ _
  apply (h.varyings.find _ n).bind
  intro _ _
  exact .refl _

theorem persists_outputFields (h : e.decls.Keeps d) :
    Persists (outputFields e) (outputFields (e.under d)) := by
  unfold outputFields
  rw [show (e.under d).outputsByLocation = e.outputsByLocation from rfl]
  split
  · exact .refl _
  · apply Persists.mapM
    rintro ⟨n, i⟩ _
    apply (h.outputs.find _ n).bind
    intro _ _
    exact .refl _

theorem persists_interface (h : e.decls.Keeps d) (flow : Flow) :
    Persists (interface e flow) (interface (e.under d) flow) := by
  have houtputs : ∀ inputs : List Struct, Persists
      (do return inputs ++ [⟨fragmentOut, ← outputFields e⟩])
      (do return inputs ++ [⟨fragmentOut, ← outputFields (e.under d)⟩]) := by
    intro inputs
    apply (persists_outputFields h).bind
    intro _ _
    exact .refl _
  cases flow with
  | vertex output remap =>
      cases output with
      | true =>
          apply (persists_varyingFields h).bind
          intro _ _
          exact .refl _
      | false => exact .refl _
  | fragment input output color =>
      cases input with
      | true =>
          apply (persists_varyingFields h).bind
          intro _ _
          cases output with
          | true => exact houtputs _
          | false => exact .refl _
      | false =>
          cases output with
          | true => exact houtputs _
          | false => exact .refl _

theorem persists_params (h : e.decls.Keeps d) (flow : Flow) :
    Persists (params e flow) (params (e.under d) flow) := by
  cases flow with
  | vertex output remap =>
      have hattribute : ∀ n i,
          Persists (attributeParam e n i) (attributeParam (e.under d) n i) := by
        intro n i
        apply (h.attributes.find _ n).bind
        intro _ _
        exact .refl _
      apply (Persists.mapM fun p _ ↦ hattribute p.1 p.2).bind
      intro _ _
      exact .refl _
  | fragment input output color => cases input <;> exact .refl _

theorem persists_emit (h : e.decls.Keeps d) (o : Options) :
    Persists (emit e o) (emit (e.under d) o) := by
  have hstructs : Persists (structs e) (structs (e.under d)) := by
    apply (Persists.mapM fun n _ ↦ h.uniformStructs.find _ n).bind
    intro _ _
    exact .refl _
  apply hstructs.bind
  intro _ _
  have hresources : Persists (resources e) (resources (e.under d)) := by
    apply (Persists.mapM fun a _ ↦ persists_bindingResources h a).bind
    intro _ _
    exact .refl _
  apply hresources.bind
  intro _ _
  have hconstants : ∀ flow, Persists (constants e flow) (constants (e.under d) flow) := by
    intro flow
    apply Persists.mapM
    intro i _
    apply (h.constant i).bind
    intro _ _
    exact .refl _
  apply (hconstants _).bind
  intro _ _
  have hfunctions : Persists (functions e) (functions (e.under d)) := by
    apply Persists.mapM
    intro n _
    apply (h.helpers.find _ n).bind
    intro _ _
    exact .refl _
  apply hfunctions.bind
  intro _ _
  apply (persists_interface h _).bind
  intro _ _
  have hentry : ∀ flow, Persists (entryFunction e flow) (entryFunction (e.under d) flow) := by
    intro flow
    apply (persists_params h flow).bind
    intro _ _
    exact .refl _
  apply (hentry _).bind
  intro _ _
  exact .refl _

end Wgsl

end Shading
