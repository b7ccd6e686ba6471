import Shading.Proofs.Code.Mentions

/-!
# Code that cannot be written

Code is written exactly if all its expressions and types are.  Whatever goes wrong goes wrong in one
of them.
-/

namespace Shading

/-- Something is wrong with what is asked for, not with what is declared. -/
def Error.Invalid (e : Error) : Prop :=
  e.category = .invalidArgument

/-! ### Subexpressions -/

namespace Expr

theorem sizeOf_lt_of_mem_children {e c : Expr} (h : c ∈ e.children) : sizeOf c < sizeOf e := by
  cases e with
  | lit l => cases h
  | var x => cases h
  | array type items =>
      have hitem : sizeOf c < sizeOf items := List.sizeOf_lt_of_mem h
      simp only [array.sizeOf_spec]
      omega
  | call callee args =>
      have harg : sizeOf c < sizeOf args := List.sizeOf_lt_of_mem h
      simp only [call.sizeOf_spec]
      omega
  | unary op a =>
      obtain rfl := List.mem_singleton.mp h
      simp only [unary.sizeOf_spec]
      omega
  | swizzle a channels =>
      obtain rfl := List.mem_singleton.mp h
      simp only [swizzle.sizeOf_spec]
      omega
  | field a name =>
      obtain rfl := List.mem_singleton.mp h
      simp only [field.sizeOf_spec]
      omega
  | binary op a b =>
      simp only [children, List.mem_cons, List.not_mem_nil, or_false] at h
      rcases h with rfl | rfl <;> simp only [binary.sizeOf_spec] <;> omega
  | index a i =>
      simp only [children, List.mem_cons, List.not_mem_nil, or_false] at h
      rcases h with rfl | rfl <;> simp only [index.sizeOf_spec] <;> omega

/-- What holds of an expression whenever it holds of its children holds of all expressions. -/
theorem induction_on_children {motive : Expr → Prop}
    (step : ∀ e, (∀ c ∈ e.children, motive c) → motive e) (e : Expr) : motive e :=
  step e fun c _ ↦ induction_on_children step c
termination_by sizeOf e
decreasing_by exact sizeOf_lt_of_mem_children ‹_›

/-- An expression stands somewhere in another one. -/
inductive Within : Expr → Expr → Prop
  | refl (e : Expr) : Within e e
  | child {e c x : Expr} (hc : c ∈ e.children) (h : Within c x) : Within e x

end Expr

/-! ### Types in statements -/

mutual

/-- The types of the variables and loop counters that a statement declares, at any depth. -/
def Statement.types : Statement → List Ty
  | .declare type _ _ => [type]
  | .branch _ body rest => Block.types body ++ rest.types
  | .forLoop type _ _ _ _ body => type :: Block.types body
  | .whileLoop _ body => Block.types body
  | _ => []

def Block.types : List Statement → List Ty
  | [] => []
  | s :: ss => s.types ++ Block.types ss

def Otherwise.types : Otherwise → List Ty
  | .nothing => []
  | .always body => Block.types body
  | .test _ body rest => Block.types body ++ rest.types

end

/-- All types in a helper: those of its parameters, its result and its variables. -/
def Helper.types (h : Helper) : List Ty :=
  h.params ++ (h.result.map Term.type).toList ++ Block.types h.body

namespace Code.Target

variable {t : Target} {P : Error → Prop}

/-! ### Failures -/

theorem failsOnly_option {value : Option Shading.Expr}
    (h : ∀ e ∈ value.toList, FailsOnly P (t.expr e)) : FailsOnly P (t.option value) := by
  cases value with
  | none => exact failsOnly_ok none
  | some e =>
      apply (h e (List.mem_singleton_self e)).bind
      intro x _
      exact failsOnly_ok (some x)

mutual

theorem failsOnly_statement (htype : ∀ type, FailsOnly P (t.type type)) : ∀ s : Shading.Statement,
    (∀ e ∈ s.exprs, FailsOnly P (t.expr e)) → FailsOnly P (t.statement s)
  | .declare type h init, he => by
    apply (htype type).bind
    intro _ _
    apply (failsOnly_option he).bind
    intro _ _
    exact failsOnly_ok _
  | .assign target op value, he => by
    apply (he target List.mem_cons_self).bind
    intro _ _
    apply (he value (List.mem_cons_of_mem _ List.mem_cons_self)).bind
    intro _ _
    exact failsOnly_ok _
  | .leave value, he => by
    apply (failsOnly_option he).bind
    intro _ _
    exact failsOnly_ok _
  | .skip, _ => failsOnly_ok _
  | .stop, _ => failsOnly_ok _
  | .discard, _ => failsOnly_ok _
  | .branch condition body rest, he => by
    apply (he condition List.mem_cons_self).bind
    intro _ _
    apply (failsOnly_block htype body fun e hmem ↦
      he e (List.mem_cons_of_mem _ (List.mem_append_left _ hmem))).bind
    intro _ _
    apply (failsOnly_otherwise htype rest fun e hmem ↦
      he e (List.mem_cons_of_mem _ (List.mem_append_right _ hmem))).bind
    intro _ _
    exact failsOnly_ok _
  | .forLoop type h init condition next body, he => by
    simp only [Shading.Statement.exprs, List.forall_mem_cons] at he
    obtain ⟨hinit, hcondition, hnext, hbody⟩ := he
    apply (htype type).bind
    intro _ _
    apply hinit.bind
    intro _ _
    apply hcondition.bind
    intro _ _
    apply hnext.bind
    intro _ _
    apply (failsOnly_block htype body hbody).bind
    intro _ _
    exact failsOnly_ok _
  | .whileLoop condition body, he => by
    apply (he condition List.mem_cons_self).bind
    intro _ _
    apply (failsOnly_block htype body fun e hmem ↦ he e (List.mem_cons_of_mem _ hmem)).bind
    intro _ _
    exact failsOnly_ok _
  | .raw glsl wgsl, _ => failsOnly_ok _

theorem failsOnly_block (htype : ∀ type, FailsOnly P (t.type type)) :
    ∀ ss : List Shading.Statement,
    (∀ e ∈ Block.exprs ss, FailsOnly P (t.expr e)) → FailsOnly P (t.block ss)
  | [], _ => failsOnly_ok _
  | s :: ss, he => by
    apply (failsOnly_statement htype s fun e hmem ↦ he e (List.mem_append_left _ hmem)).bind
    intro _ _
    apply (failsOnly_block htype ss fun e hmem ↦ he e (List.mem_append_right _ hmem)).bind
    intro _ _
    exact failsOnly_ok _

theorem failsOnly_otherwise (htype : ∀ type, FailsOnly P (t.type type)) :
    ∀ rest : Shading.Otherwise,
    (∀ e ∈ rest.exprs, FailsOnly P (t.expr e)) → FailsOnly P (t.otherwise rest)
  | .nothing, _ => failsOnly_ok _
  | .always body, he => by
    apply (failsOnly_block htype body he).bind
    intro _ _
    exact failsOnly_ok _
  | .test condition body rest, he => by
    apply (he condition List.mem_cons_self).bind
    intro _ _
    apply (failsOnly_block htype body fun e hmem ↦
      he e (List.mem_cons_of_mem _ (List.mem_append_left _ hmem))).bind
    intro _ _
    apply (failsOnly_otherwise htype rest fun e hmem ↦
      he e (List.mem_cons_of_mem _ (List.mem_append_right _ hmem))).bind
    intro _ _
    exact failsOnly_ok _

end

theorem failsOnly_function (htype : ∀ type, FailsOnly P (t.type type)) (name : String) (h : Helper)
    (he : ∀ e ∈ h.exprs, FailsOnly P (t.expr e)) : FailsOnly P (t.function name h) := by
  have hresult : FailsOnly P (t.resultType h.result) := by
    cases h.result with
    | none => exact failsOnly_ok none
    | some r =>
        apply (htype r.type).bind
        intro _ _
        exact failsOnly_ok _
  apply hresult.bind
  intro _ _
  apply (FailsOnly.mapM fun type _ ↦ htype type).bind
  intro _ _
  apply (failsOnly_block htype h.body fun e hmem ↦ he e (List.mem_append_left _ hmem)).bind
  intro _ _
  apply (failsOnly_option fun e hmem ↦ he e (List.mem_append_right _ hmem)).bind
  intro _ _
  exact failsOnly_ok _

theorem failsOnly_constant (htype : ∀ type, FailsOnly P (t.type type)) (index : Nat) (value : Term)
    (he : FailsOnly P (t.expr value.expr)) : FailsOnly P (t.constant index value) := by
  apply (htype value.type).bind
  intro _ _
  apply he.bind
  intro _ _
  exact failsOnly_ok _

/-! ### What is written -/

theorem exists_option_iff {value : Option Shading.Expr} :
    (∃ v, t.option value = .ok v) ↔ ∀ e ∈ value.toList, ∃ x, t.expr e = .ok x := by
  cases value with
  | none => simp [option]
  | some e =>
      have hone : (∃ v, t.option (some e) = .ok v) ↔ ∃ x, t.expr e = .ok x :=
        exists_bind_iff fun _ ↦ ⟨_, rfl⟩
      simpa using hone

mutual

theorem exists_statement_iff : ∀ s : Shading.Statement,
    (∃ code, t.statement s = .ok code) ↔
      (∀ type ∈ s.types, ∃ x, t.type type = .ok x) ∧ ∀ e ∈ s.exprs, ∃ x, t.expr e = .ok x
  | .declare type h init => by
    have hdeclare : (∃ code, t.statement (.declare type h init) = .ok code) ↔
        (∃ x, t.type type = .ok x) ∧ ∃ v, t.option init = .ok v :=
      exists_bind_iff_and fun _ ↦ exists_bind_iff fun _ ↦ ⟨_, rfl⟩
    rw [hdeclare, exists_option_iff]
    simp [Shading.Statement.types, Shading.Statement.exprs]
  | .assign target op value => by
    have hassign : (∃ code, t.statement (.assign target op value) = .ok code) ↔
        (∃ x, t.expr target = .ok x) ∧ ∃ x, t.expr value = .ok x :=
      exists_bind_iff_and fun _ ↦ exists_bind_iff fun _ ↦ ⟨_, rfl⟩
    rw [hassign]
    simp [Shading.Statement.types, Shading.Statement.exprs]
  | .leave value => by
    have hleave : (∃ code, t.statement (.leave value) = .ok code) ↔ ∃ v, t.option value = .ok v :=
      exists_bind_iff fun _ ↦ ⟨_, rfl⟩
    rw [hleave, exists_option_iff]
    simp [Shading.Statement.types, Shading.Statement.exprs]
  | .skip => by simp [statement, Shading.Statement.types, Shading.Statement.exprs]
  | .stop => by simp [statement, Shading.Statement.types, Shading.Statement.exprs]
  | .discard => by simp [statement, Shading.Statement.types, Shading.Statement.exprs]
  | .branch condition body rest => by
    have hbranch : (∃ code, t.statement (.branch condition body rest) = .ok code) ↔
        (∃ x, t.expr condition = .ok x) ∧ (∃ code, t.block body = .ok code) ∧
          ∃ code, t.otherwise rest = .ok code :=
      exists_bind_iff_and fun _ ↦ exists_bind_iff_and fun _ ↦ exists_bind_iff fun _ ↦ ⟨_, rfl⟩
    rw [hbranch, exists_block_iff body, exists_otherwise_iff rest]
    simp only [Shading.Statement.types, Shading.Statement.exprs, List.forall_mem_cons,
      List.forall_mem_append]
    tauto
  | .forLoop type h init condition next body => by
    have hloop : (∃ code, t.statement (.forLoop type h init condition next body) = .ok code) ↔
        (∃ x, t.type type = .ok x) ∧ (∃ x, t.expr init = .ok x) ∧
          (∃ x, t.expr condition = .ok x) ∧ (∃ x, t.expr next = .ok x) ∧
            ∃ code, t.block body = .ok code :=
      exists_bind_iff_and fun _ ↦ exists_bind_iff_and fun _ ↦ exists_bind_iff_and fun _ ↦
        exists_bind_iff_and fun _ ↦ exists_bind_iff fun _ ↦ ⟨_, rfl⟩
    rw [hloop, exists_block_iff body]
    simp only [Shading.Statement.types, Shading.Statement.exprs, List.forall_mem_cons]
    tauto
  | .whileLoop condition body => by
    have hloop : (∃ code, t.statement (.whileLoop condition body) = .ok code) ↔
        (∃ x, t.expr condition = .ok x) ∧ ∃ code, t.block body = .ok code :=
      exists_bind_iff_and fun _ ↦ exists_bind_iff fun _ ↦ ⟨_, rfl⟩
    rw [hloop, exists_block_iff body]
    simp only [Shading.Statement.types, Shading.Statement.exprs, List.forall_mem_cons]
    tauto
  | .raw glsl wgsl => by simp [statement, Shading.Statement.types, Shading.Statement.exprs]

/-- Code is written exactly if all its types and expressions are. -/
theorem exists_block_iff : ∀ ss : List Shading.Statement,
    (∃ code, t.block ss = .ok code) ↔
      (∀ type ∈ Block.types ss, ∃ x, t.type type = .ok x) ∧
        ∀ e ∈ Block.exprs ss, ∃ x, t.expr e = .ok x
  | [] => by simp [block, Block.types, Block.exprs]
  | s :: ss => by
    have hblock : (∃ code, t.block (s :: ss) = .ok code) ↔
        (∃ code, t.statement s = .ok code) ∧ ∃ code, t.block ss = .ok code :=
      exists_bind_iff_and fun _ ↦ exists_bind_iff fun _ ↦ ⟨_, rfl⟩
    rw [hblock, exists_statement_iff s, exists_block_iff ss]
    simp only [Block.types, Block.exprs, List.forall_mem_append]
    tauto

theorem exists_otherwise_iff : ∀ rest : Shading.Otherwise,
    (∃ code, t.otherwise rest = .ok code) ↔
      (∀ type ∈ rest.types, ∃ x, t.type type = .ok x) ∧ ∀ e ∈ rest.exprs, ∃ x, t.expr e = .ok x
  | .nothing => by simp [otherwise, Shading.Otherwise.types, Shading.Otherwise.exprs]
  | .always body => by
    have halways : (∃ code, t.otherwise (.always body) = .ok code) ↔
        ∃ code, t.block body = .ok code :=
      exists_bind_iff fun _ ↦ ⟨_, rfl⟩
    rw [halways, exists_block_iff body]
    simp only [Shading.Otherwise.types, Shading.Otherwise.exprs]
  | .test condition body rest => by
    have htest : (∃ code, t.otherwise (.test condition body rest) = .ok code) ↔
        (∃ x, t.expr condition = .ok x) ∧ (∃ code, t.block body = .ok code) ∧
          ∃ code, t.otherwise rest = .ok code :=
      exists_bind_iff_and fun _ ↦ exists_bind_iff_and fun _ ↦ exists_bind_iff fun _ ↦ ⟨_, rfl⟩
    rw [htest, exists_block_iff body, exists_otherwise_iff rest]
    simp only [Shading.Otherwise.types, Shading.Otherwise.exprs, List.forall_mem_cons,
      List.forall_mem_append]
    tauto

end

theorem exists_resultType_iff {result : Option Term} :
    (∃ x, t.resultType result = .ok x) ↔
      ∀ type ∈ (result.map Term.type).toList, ∃ x, t.type type = .ok x := by
  cases result with
  | none => simp [resultType]
  | some r =>
      have hone : (∃ x, t.resultType (some r) = .ok x) ↔ ∃ x, t.type r.type = .ok x :=
        exists_bind_iff fun _ ↦ ⟨_, rfl⟩
      simpa using hone

theorem exists_function_iff {name : String} {h : Helper} :
    (∃ f, t.function name h = .ok f) ↔
      (∀ type ∈ h.types, ∃ x, t.type type = .ok x) ∧ ∀ e ∈ h.exprs, ∃ x, t.expr e = .ok x := by
  have hfunction : (∃ f, t.function name h = .ok f) ↔
      (∃ x, t.resultType h.result = .ok x) ∧ (∃ xs, h.params.mapM t.type = .ok xs) ∧
        (∃ code, t.block h.body = .ok code) ∧ ∃ v, t.option (h.result.map Term.expr) = .ok v :=
    exists_bind_iff_and fun _ ↦ exists_bind_iff_and fun _ ↦ exists_bind_iff_and fun _ ↦
      exists_bind_iff fun _ ↦ ⟨_, rfl⟩
  rw [hfunction, exists_resultType_iff, exists_mapM_iff, exists_block_iff, exists_option_iff]
  simp only [Helper.types, Helper.exprs, List.forall_mem_append]
  tauto

theorem exists_constant_iff {index : Nat} {value : Term} :
    (∃ c, t.constant index value = .ok c) ↔
      (∃ x, t.type value.type = .ok x) ∧ ∃ x, t.expr value.expr = .ok x :=
  exists_bind_iff_and fun _ ↦ exists_bind_iff fun _ ↦ ⟨_, rfl⟩

end Code.Target

end Shading
