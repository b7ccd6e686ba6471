import Shading.Proofs.Emission.Lookups

/-!
# What WGSL cannot write

An expression cannot be written for two reasons only: an operator or a texture access has another
number of arguments than two, or a stage input or output is used in a helper.  Whether an entry
point has a module depends on nothing else, as long as all that it uses is declared and bound.
-/

namespace Shading

/-- Inputs and outputs of a stage, which are no globals in WGSL. -/
def Handle.isStageValue : Handle → Bool
  | .builtin _ => true
  | .vertexAttribute _ => true
  | .varying _ => true
  | .output _ => true
  | _ => false

/-- Calls that have exactly two arguments in WGSL: some are operators there, and a texture access
has a texture and coordinates. -/
def Callee.takesTwo : Callee → Bool
  | .intrinsic .mod => true
  | .intrinsic .lessThan => true
  | .intrinsic .lessThanEqual => true
  | .intrinsic .greaterThan => true
  | .intrinsic .greaterThanEqual => true
  | .intrinsic .equal => true
  | .intrinsic .notEqual => true
  | .texture _ => true
  | _ => false

namespace Wgsl

/-! ### Rendered positions -/

/-- The direct subexpressions that show in the text.  A negation shows its first operand only. -/
def shown : Expr → List Expr
  | .call (.intrinsic .notEach) args => args.take 1
  | e => e.children

/-- An expression stands in another one in a position that shows in the text. -/
inductive Rendered : Expr → Expr → Prop
  | refl (e : Expr) : Rendered e e
  | child {e c x : Expr} (hc : c ∈ shown e) (h : Rendered c x) : Rendered e x

/-- Nothing is wrong with an expression in a place, whatever is wrong with its subexpressions. -/
def Writable (place : Place) : Expr → Prop
  | .var h => h.isStageValue = true → ∀ stage, place ≠ .helper stage
  | .call callee args => callee.takesTwo = true → args.length = 2
  | _ => True

theorem shown_call_of_ne {callee : Callee} (h : callee ≠ .intrinsic .notEach) (args : List Expr) :
    shown (.call callee args) = args := by
  unfold shown
  split
  · next heq =>
      cases heq
      exact (h rfl).elim
  · rfl

theorem mem_children_of_shown {e c : Expr} (h : c ∈ shown e) : c ∈ e.children := by
  unfold shown at h
  split at h
  · exact List.mem_of_mem_take h
  · exact h

/-! ### Expressions -/

theorem lowerEach_eq_map (place : Place) (es : List Expr) :
    lowerEach place es = es.map (lower place) := by
  induction es with
  | nil => rfl
  | cons e es ih => rw [lowerEach, ih, List.map_cons]

theorem takesTwo_intrinsic {f : Intrinsic} :
    (Callee.intrinsic f).takesTwo = true ↔ ∃ op, spelling f = .binary op := by
  cases f <;> simp [Callee.takesTwo, spelling]

theorem spelling_eq_not {f : Intrinsic} : spelling f = .not ↔ f = .notEach := by
  cases f <;> simp [spelling]

theorem exists_checkStageValue_iff {place : Place} {what : String} :
    (∃ x, checkStageValue place what = .ok x) ↔ ∀ stage, place ≠ .helper stage := by
  cases place <;> simp [checkStageValue]

theorem exists_lowerHandle_iff {place : Place} {h : Handle} :
    (∃ x, lowerHandle place h = .ok x) ↔ Writable place (.var h) := by
  have hstage : ∀ {what : String} {y : Code.Expr},
      (∃ x, (do checkStageValue place what; return y) = .ok x) ↔
        ∀ stage, place ≠ .helper stage :=
    (exists_bind_iff fun _ ↦ ⟨_, rfl⟩).trans exists_checkStageValue_iff
  cases h with
  | builtin b => exact hstage.trans ⟨fun h _ ↦ h, fun h ↦ h rfl⟩
  | vertexAttribute n => exact hstage.trans ⟨fun h _ ↦ h, fun h ↦ h rfl⟩
  | varying n => exact hstage.trans ⟨fun h _ ↦ h, fun h ↦ h rfl⟩
  | output n => exact hstage.trans ⟨fun h _ ↦ h, fun h ↦ h rfl⟩
  | _ => exact ⟨fun _ h ↦ (Bool.noConfusion h), fun _ ↦ ⟨_, rfl⟩⟩

theorem exists_mapM_id_iff {outcomes : List (Except Error Code.Expr)}
    {f : List Code.Expr → Code.Expr} :
    (∃ x, (do return f (← outcomes.mapM id)) = .ok x) ↔ ∀ a ∈ outcomes, ∃ y, a = .ok y :=
  (exists_bind_iff fun _ ↦ ⟨_, rfl⟩).trans exists_mapM_iff

theorem exists_pair_iff {a b : Except Error Code.Expr} {f : Code.Expr → Code.Expr → Code.Expr} :
    (∃ x, (do return f (← a) (← b)) = .ok x) ↔ ∀ c ∈ [a, b], ∃ y, c = .ok y := by
  cases a <;> cases b <;> simp

/-- The arguments of a call that show in the text. -/
def shownArgs {α : Type} (callee : Callee) (args : List α) : List α :=
  if callee = .intrinsic .notEach then args.take 1 else args

theorem exists_lowerIntrinsic_iff {place : Place} {f : Intrinsic}
    {args : List (Except Error Code.Expr)} :
    (∃ x, lowerCall place (.intrinsic f) args = .ok x) ↔
      ((Callee.intrinsic f).takesTwo = true → args.length = 2) ∧
        ∀ a ∈ shownArgs (.intrinsic f) args, ∃ x, a = .ok x := by
  unfold lowerCall
  dsimp only
  cases hspelling : spelling f with
  | call name =>
      have hne : Callee.intrinsic f ≠ .intrinsic .notEach := by
        rintro ⟨⟩
        cases hspelling
      have htwo : (Callee.intrinsic f).takesTwo ≠ true := by
        rw [ne_eq, takesTwo_intrinsic, hspelling]
        simp
      rw [shownArgs, if_neg hne]
      exact exists_mapM_id_iff.trans ⟨fun h ↦ ⟨fun h' ↦ (htwo h').elim, h⟩, And.right⟩
  | binary op =>
      have hne : Callee.intrinsic f ≠ .intrinsic .notEach := by
        rintro ⟨⟩
        cases hspelling
      have htwo : (Callee.intrinsic f).takesTwo = true := takesTwo_intrinsic.mpr ⟨op, hspelling⟩
      rw [shownArgs, if_neg hne]
      match args with
      | [] => simp [htwo]
      | [a] => simp [htwo]
      | [a, b] => exact exists_pair_iff.trans ⟨fun h ↦ ⟨fun _ ↦ rfl, h⟩, And.right⟩
      | _ :: _ :: _ :: _ => simp [htwo]
  | not =>
      obtain rfl := spelling_eq_not.mp hspelling
      cases args with
      | nil => simp [shownArgs, Callee.takesTwo]
      | cons a rest =>
          have hone : (∃ x, (do return Code.Expr.unary .not (← a)) = .ok x) ↔ ∃ x, a = .ok x :=
            exists_bind_iff fun _ ↦ ⟨_, rfl⟩
          simpa [shownArgs, Callee.takesTwo] using hone

/-- A call can be written if it has as many arguments as it needs and those that show can be. -/
theorem exists_lowerCall_iff {place : Place} {callee : Callee}
    {args : List (Except Error Code.Expr)} :
    (∃ x, lowerCall place callee args = .ok x) ↔
      (callee.takesTwo = true → args.length = 2) ∧
        ∀ a ∈ shownArgs callee args, ∃ x, a = .ok x := by
  cases callee with
  | intrinsic f => exact exists_lowerIntrinsic_iff
  | construct p => exact exists_mapM_id_iff.trans ⟨fun h ↦ ⟨fun h' ↦ (nomatch h'), h⟩, And.right⟩
  | texelFetch kind =>
      exact exists_mapM_id_iff.trans ⟨fun h ↦ ⟨fun h' ↦ (nomatch h'), h⟩, And.right⟩
  | helper name =>
      exact exists_mapM_id_iff.trans ⟨fun h ↦ ⟨fun h' ↦ (nomatch h'), h⟩, And.right⟩
  | texture kind =>
      match args with
      | [] => simp [lowerCall, Callee.takesTwo]
      | [a] => simp [lowerCall, Callee.takesTwo]
      | [a, b] => exact exists_pair_iff.trans ⟨fun h ↦ ⟨fun _ ↦ rfl, h⟩, And.right⟩
      | _ :: _ :: _ :: _ => simp [lowerCall, Callee.takesTwo]

/-- An expression can be written if nothing is wrong with itself and what shows of it can be. -/
theorem exists_lower_iff_shown (place : Place) (e : Expr) :
    (∃ x, lower place e = .ok x) ↔
      Writable place e ∧ ∀ c ∈ shown e, ∃ x, lower place c = .ok x := by
  cases e with
  | lit l => simp [lower, Writable, shown, Expr.children]
  | var h => simpa [lower, shown, Expr.children] using exists_lowerHandle_iff
  | array type items =>
      rw [lower, lowerEach_eq_map, exists_mapM_id_iff]
      simp [Writable, shown, Expr.children]
  | unary op a =>
      have hone : (∃ x, lower place (.unary op a) = .ok x) ↔ ∃ x, lower place a = .ok x :=
        exists_bind_iff fun _ ↦ ⟨_, rfl⟩
      simpa [Writable, shown, Expr.children] using hone
  | binary op a b =>
      rw [lower, exists_pair_iff]
      simp [Writable, shown, Expr.children]
  | call callee args =>
      rw [lower, lowerEach_eq_map, exists_lowerCall_iff, List.length_map, Writable]
      apply and_congr_right'
      by_cases hnot : callee = .intrinsic .notEach
      · simp [shownArgs, hnot, shown, ← List.map_take]
      · simp [shownArgs, hnot, shown_call_of_ne hnot]
  | swizzle a channels =>
      have hone : (∃ x, lower place (.swizzle a channels) = .ok x) ↔ ∃ x, lower place a = .ok x :=
        exists_bind_iff fun _ ↦ ⟨_, rfl⟩
      simpa [Writable, shown, Expr.children] using hone
  | field a name =>
      have hone : (∃ x, lower place (.field a name) = .ok x) ↔ ∃ x, lower place a = .ok x :=
        exists_bind_iff fun _ ↦ ⟨_, rfl⟩
      simpa [Writable, shown, Expr.children] using hone
  | index a i =>
      rw [lower, exists_pair_iff]
      simp [Writable, shown, Expr.children]

/-- An expression can be written if nothing is wrong in any position that shows. -/
theorem exists_lower_iff (place : Place) (e : Expr) :
    (∃ x, lower place e = .ok x) ↔ ∀ y, Rendered e y → Writable place y := by
  induction e using Expr.induction_on_children with
  | step e ih =>
      rw [exists_lower_iff_shown]
      constructor
      · rintro ⟨hown, hshown⟩ y hy
        cases hy with
        | refl => exact hown
        | child hc hy => exact (ih _ (mem_children_of_shown hc)).mp (hshown _ hc) y hy
      · intro h
        refine ⟨h e (.refl e), fun c hc ↦ ?_⟩
        exact (ih c (mem_children_of_shown hc)).mpr fun y hy ↦ h y (.child hc hy)

/-! ### Kinds of failures -/

theorem failsOnly_lowerHandle (place : Place) (h : Handle) :
    FailsOnly Error.Invalid (lowerHandle place h) := by
  have hcheck : ∀ {what : String} {y : Code.Expr},
      FailsOnly Error.Invalid (do checkStageValue place what; return y) := by
    intro what y
    cases place with
    | helper stage => exact failsOnly_error rfl
    | _ => exact failsOnly_ok y
  cases h with
  | builtin b => exact hcheck
  | vertexAttribute n => exact hcheck
  | varying n => exact hcheck
  | output n => exact hcheck
  | _ => exact failsOnly_ok _

theorem failsOnly_lowerCall {place : Place} {callee : Callee}
    {args : List (Except Error Code.Expr)} (h : ∀ a ∈ args, FailsOnly Error.Invalid a) :
    FailsOnly Error.Invalid (lowerCall place callee args) := by
  have hall : ∀ f : List Code.Expr → Code.Expr,
      FailsOnly Error.Invalid (do return f (← args.mapM id)) :=
    fun f ↦ (FailsOnly.mapM h).bind fun xs _ ↦ failsOnly_ok (f xs)
  have hpair : ∀ {a b : Except Error Code.Expr} (f : Code.Expr → Code.Expr → Code.Expr),
      args = [a, b] → FailsOnly Error.Invalid (do return f (← a) (← b)) := by
    rintro a b f rfl
    apply (h a List.mem_cons_self).bind
    intro x _
    apply (h b (List.mem_cons_of_mem _ List.mem_cons_self)).bind
    intro y _
    exact failsOnly_ok (f x y)
  cases callee with
  | construct p => exact hall _
  | texelFetch kind => exact hall _
  | helper name => exact hall _
  | texture kind =>
      unfold lowerCall
      dsimp only
      split
      · exact hpair _ rfl
      · exact failsOnly_error rfl
  | intrinsic f =>
      unfold lowerCall
      dsimp only
      split
      · exact hall _
      · exact hpair _ rfl
      · exact failsOnly_error rfl
      · next a _ _ =>
          apply (h a List.mem_cons_self).bind
          intro x _
          exact failsOnly_ok _
      · exact failsOnly_ok _

theorem failsOnly_lower (place : Place) (e : Expr) :
    FailsOnly Error.Invalid (lower place e) := by
  induction e using Expr.induction_on_children with
  | step e ih =>
      have heach : ∀ {es : List Expr}, (∀ c ∈ es, FailsOnly Error.Invalid (lower place c)) →
          ∀ a ∈ lowerEach place es, FailsOnly Error.Invalid a := by
        intro es h a ha
        rw [lowerEach_eq_map] at ha
        obtain ⟨c, hc, rfl⟩ := List.mem_map.mp ha
        exact h c hc
      cases e with
      | lit l => exact failsOnly_ok _
      | var h => exact failsOnly_lowerHandle place h
      | array type items =>
          apply (FailsOnly.mapM (heach ih)).bind
          intro xs _
          exact failsOnly_ok _
      | call callee args => exact failsOnly_lowerCall (heach ih)
      | unary op a =>
          apply (ih a List.mem_cons_self).bind
          intro x _
          exact failsOnly_ok _
      | swizzle a channels =>
          apply (ih a List.mem_cons_self).bind
          intro x _
          exact failsOnly_ok _
      | field a name =>
          apply (ih a List.mem_cons_self).bind
          intro x _
          exact failsOnly_ok _
      | binary op a b =>
          apply (ih a List.mem_cons_self).bind
          intro x _
          apply (ih b (List.mem_cons_of_mem _ List.mem_cons_self)).bind
          intro y _
          exact failsOnly_ok _
      | index a i =>
          apply (ih a List.mem_cons_self).bind
          intro x _
          apply (ih i (List.mem_cons_of_mem _ List.mem_cons_self)).bind
          intro y _
          exact failsOnly_ok _

/-! ### Modules -/

variable {e : Emission} {o : Options} {P : Error → Prop}

theorem failsOnly_structs (hc : e.Complete) : FailsOnly P (structs e) := by
  refine FailsOnly.bind (FailsOnly.mapM fun n hn ↦
    Declarations.failsOnly_find (hc.declared.uniformStructs n hn)) ?_
  intro _ _
  exact failsOnly_ok _

theorem failsOnly_uniformPoint (hc : e.Complete) {n : String}
    (hn : .uniform n ∈ e.usage.bindings ∨ .uniformStruct n ∈ e.usage.bindings) :
    FailsOnly P (uniformPoint e n) := by
  obtain ⟨point, hpoint⟩ := hc.points n hn
  exact failsOnly_of_exists ⟨point, uniformPoint_eq_ok.mpr hpoint⟩

theorem failsOnly_bindingResources (hc : e.Complete) {h : Handle} (hh : h ∈ e.usage.bindings) :
    FailsOnly P (bindingResources e h) := by
  rcases (hc.declared.bindings h).mp hh with ⟨n, hn, rfl⟩ | ⟨n, hn, rfl⟩ | ⟨n, hn, rfl⟩
  · refine FailsOnly.bind (Declarations.failsOnly_find (hc.declared.uniforms n hn)) ?_
    intro _ _
    refine FailsOnly.bind (failsOnly_uniformPoint hc (.inl hh)) ?_
    intro _ _
    exact failsOnly_ok _
  · refine FailsOnly.bind (Declarations.failsOnly_find (hc.declared.uniformStructs n hn)) ?_
    intro _ _
    refine FailsOnly.bind (failsOnly_uniformPoint hc (.inr hh)) ?_
    intro _ _
    exact failsOnly_ok _
  · refine FailsOnly.bind (Declarations.failsOnly_find (hc.declared.samplers n hn)) ?_
    intro _ _
    obtain ⟨slots, hslots⟩ := hc.slots n hh
    refine FailsOnly.bind (failsOnly_of_exists ⟨slots, samplerSlots_eq_ok.mpr hslots⟩) ?_
    intro _ _
    exact failsOnly_ok _

theorem failsOnly_resources (hc : e.Complete) : FailsOnly P (resources e) := by
  refine FailsOnly.bind (FailsOnly.mapM fun h hh ↦ failsOnly_bindingResources hc hh) ?_
  intro _ _
  exact failsOnly_ok _

theorem failsOnly_varyingFields (hc : e.Complete) : FailsOnly P (varyingFields e) := by
  apply FailsOnly.mapM
  rintro ⟨n, i⟩ hmem
  obtain ⟨hn, -⟩ := Emission.mem_of_varyingsByLocation hmem
  refine FailsOnly.bind (Declarations.failsOnly_find (hc.declared.varyings n hn)) ?_
  intro _ _
  exact failsOnly_ok _

theorem failsOnly_outputFields (hc : e.Complete) : FailsOnly P (outputFields e) := by
  unfold outputFields
  split
  · exact failsOnly_ok _
  · apply FailsOnly.mapM
    rintro ⟨n, i⟩ hmem
    obtain ⟨hn, -⟩ := Emission.mem_of_outputsByLocation hmem
    refine FailsOnly.bind (Declarations.failsOnly_find (hc.declared.outputs n hn)) ?_
    intro _ _
    exact failsOnly_ok _

theorem failsOnly_interface (hc : e.Complete) (flow : Flow) :
    FailsOnly P (interface e flow) := by
  have hvaryings : ∀ f : List Member → List Struct,
      FailsOnly P (do return f (← varyingFields e)) :=
    fun f ↦ (failsOnly_varyingFields hc).bind fun _ _ ↦ failsOnly_ok _
  have houtputs : ∀ f : List Member → List Struct,
      FailsOnly P (do return f (← outputFields e)) :=
    fun f ↦ (failsOnly_outputFields hc).bind fun _ _ ↦ failsOnly_ok _
  cases flow with
  | vertex output remap =>
      cases output with
      | true => exact hvaryings _
      | false => exact failsOnly_ok _
  | fragment input output color =>
      cases input with
      | true =>
          refine FailsOnly.bind (failsOnly_varyingFields hc) ?_
          intro _ _
          cases output with
          | true => exact houtputs _
          | false => exact failsOnly_ok _
      | false =>
          cases output with
          | true => exact houtputs _
          | false => exact failsOnly_ok _

theorem failsOnly_params (hc : e.Complete) (o : Options) :
    FailsOnly P (params e (entryFlow e o)) := by
  cases hstage : e.stage with
  | vertex =>
      obtain ⟨output, remap, hflow, -⟩ := entryFlow_vertex o hstage
      rw [hflow]
      have hattribute : ∀ p ∈ Layout.sortByLocation e.layout.attributes,
          FailsOnly P (attributeParam e p.1 p.2) := by
        rintro ⟨n, i⟩ hmem
        have hn : n ∈ e.usage.attributes := by
          rw [OrderedSet.mem_def, ← hc.attributes hstage]
          exact List.mem_map_of_mem (Layout.mem_sortByLocation.mp hmem)
        refine FailsOnly.bind (Declarations.failsOnly_find (hc.declared.attributes n hn)) ?_
        intro _ _
        exact failsOnly_ok _
      apply (FailsOnly.mapM hattribute).bind
      intro _ _
      exact failsOnly_ok _
  | fragment =>
      obtain ⟨input, output, color, hflow, -⟩ := entryFlow_fragment o hstage
      rw [hflow]
      cases input <;> exact failsOnly_ok _

/-- Where the code of an entry point stands. -/
def placeOf (e : Emission) (o : Options) (inHelper : Bool) : Place :=
  if inHelper then .helper e.stage else .entry (entryFlow e o)

/-- Emission fails only as one of the expressions that it writes does. -/
theorem failsOnly_emit (hc : e.Complete)
    (hlower : ∀ inHelper r, e.Writes inHelper r → FailsOnly P (lower (placeOf e o inHelper) r)) :
    FailsOnly P (emit e o) := by
  have htype : ∀ place type, FailsOnly P ((target place).type type) := fun _ _ ↦ failsOnly_ok _
  refine FailsOnly.bind (failsOnly_structs hc) ?_
  intro _ _
  refine FailsOnly.bind (failsOnly_resources hc) ?_
  intro _ _
  refine FailsOnly.bind (hc.failsOnly_constants (htype _) (hlower false)) ?_
  intro _ _
  refine FailsOnly.bind (hc.failsOnly_functions (htype _) (hlower true)) ?_
  intro _ _
  refine FailsOnly.bind (failsOnly_interface hc _) ?_
  intro _ _
  have hentry : FailsOnly P (entryFunction e (entryFlow e o)) := by
    refine FailsOnly.bind (failsOnly_params hc o) ?_
    intro _ _
    refine FailsOnly.bind (Code.Target.failsOnly_block (htype _) e.body fun r hr ↦
      hlower false r (.body hr)) ?_
    intro _ _
    exact failsOnly_ok _
  apply hentry.bind
  intro _ _
  exact failsOnly_ok _

theorem exists_lower_of_emit {m : Module} (h : emit e o = .ok m) {inHelper : Bool} {r : Expr}
    (hr : e.Writes inHelper r) : ∃ x, lower (placeOf e o inHelper) r = .ok x := by
  obtain ⟨hconstants, hfunctions⟩ := emit_code h
  obtain ⟨code, hcode, -⟩ := emit_entry h
  cases hr with
  | body hr => exact ((Code.Target.exists_block_iff e.body).mp ⟨_, hcode⟩).2 r hr
  | constant hi hc => exact Emission.Writes.exists_constant hconstants hi hc
  | helper hn hh hr => exact Emission.Writes.exists_function hfunctions hn hh hr

/-- No helper shows an input or output of the stage. -/
def HelpersPlain (e : Emission) : Prop :=
  ∀ r, e.Writes true r → ∀ h, Rendered r (.var h) → h.isStageValue = false

/-- All calls that show have as many arguments as they need. -/
def CallsComplete (e : Emission) : Prop :=
  ∀ inHelper r, e.Writes inHelper r → ∀ callee args, Rendered r (.call callee args) →
    callee.takesTwo = true → args.length = 2

theorem writable_iff (e : Emission) (o : Options) :
    (∀ inHelper r, e.Writes inHelper r → ∀ y, Rendered r y → Writable (placeOf e o inHelper) y) ↔
      HelpersPlain e ∧ CallsComplete e := by
  constructor
  · intro h
    constructor
    · intro r hr x hx
      have hwritable : Writable (.helper e.stage) (.var x) := h true r hr _ hx
      by_contra hvalue
      exact hwritable (Bool.eq_true_of_not_eq_false hvalue) e.stage rfl
    · intro inHelper r hr callee args hx
      exact h inHelper r hr _ hx
  · rintro ⟨hplain, hcalls⟩ inHelper r hr y hy
    cases y with
    | var x =>
        cases inHelper with
        | true =>
            intro hvalue
            cases hvalue.symm.trans (hplain r hr x hy)
        | false =>
            intro _ stage
            simp [placeOf]
    | call callee args => exact hcalls inHelper r hr callee args hy
    | _ => trivial

/-- An entry point has a module if its helpers are plain and its calls complete. -/
theorem exists_emit_iff (hc : e.Complete) (o : Options) :
    (∃ m, emit e o = .ok m) ↔ HelpersPlain e ∧ CallsComplete e := by
  rw [← writable_iff e o]
  constructor
  · rintro ⟨m, hm⟩ inHelper r hr
    exact (exists_lower_iff _ r).mp (exists_lower_of_emit hm hr)
  · intro h
    have hlower : FailsOnly (fun _ ↦ False) (emit e o) :=
      failsOnly_emit hc fun inHelper r hr ↦
        failsOnly_of_exists ((exists_lower_iff _ r).mpr (h inHelper r hr))
    exact exists_ok_of_failsOnly hlower fun _ ↦ id

end Wgsl

end Shading
