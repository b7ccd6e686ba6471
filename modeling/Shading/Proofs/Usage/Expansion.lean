import Shading.Proofs.Usage.Unbounded

/-!
# Inline expansion

A walk follows a helper or a constant only the first time it comes across it.  The expansion of a
body follows it every time.  The analysis of a body holds the first occurrences of what the whole
expansion comes across, in the same order.
-/

namespace Shading

/-! ### First occurrences -/

namespace OrderedSet

variable {α : Type} [DecidableEq α]

theorem toList_insertAll (s : OrderedSet α) (items : List α) :
    (s.insertAll items).toList = s.toList ++ (items.removeAll s.toList).eraseDups := by
  induction items generalizing s with
  | nil => simp [insertAll, List.removeAll]
  | cons a items ih =>
      have hstep : s.insertAll (a :: items) = (s.insert a).insertAll items := rfl
      rw [hstep, ih]
      by_cases ha : a ∈ s.toList
      · rw [insert_of_mem ha]
        simp [List.removeAll, ha]
      · rw [toList_insert_of_notMem ha]
        simp [List.removeAll, ha, List.eraseDups_cons, List.filter_filter, Bool.and_comm,
          beq_eq_decide]

/-- Members inserted one after the other stand in the order in which they first occur. -/
theorem toList_insertAll_empty (items : List α) :
    ((empty : OrderedSet α).insertAll items).toList = items.eraseDups := by
  rw [toList_insertAll]
  simp [empty, List.removeAll]

end OrderedSet

namespace Usage

/-! ### Expansion -/

/-- Some events with the code of every reference in front of it, wherever it occurs. -/
inductive Expands (d : Declarations) : List Event → List Event → Prop
  | nil : Expands d [] []
  | keep {e : Event} {es t : List Event} (hcode : e.code? d = none) (hrest : Expands d es t) :
      Expands d (e :: es) (e :: t)
  | follow {e : Event} {es body s t : List Event} (hcode : e.code? d = some body)
      (hbody : Expands d body s) (hrest : Expands d es t) : Expands d (e :: es) (s ++ e :: t)

variable {d : Declarations} {stage : Stage}

theorem Expands.unique {es t t' : List Event} (h : Expands d es t) (h' : Expands d es t') :
    t = t' := by
  induction h generalizing t' with
  | nil =>
      cases h'
      rfl
  | keep hcode _ ih =>
      cases h' with
      | keep _ hrest => rw [ih hrest]
      | follow hcode' => cases hcode.symm.trans hcode'
  | follow hcode _ _ ihbody ihrest =>
      cases h' with
      | keep hcode' => cases hcode.symm.trans hcode'
      | follow hcode' hbody hrest =>
          cases hcode.symm.trans hcode'
          rw [ihbody hbody, ihrest hrest]

theorem Expands.mem_of_mem {es t : List Event} {e : Event} (h : Expands d es t) (he : e ∈ es) :
    e ∈ t := by
  induction h with
  | nil => cases he
  | keep _ _ ih =>
      rcases List.mem_cons.mp he with rfl | he
      · exact List.mem_cons_self
      · exact List.mem_cons_of_mem _ (ih he)
  | follow _ _ _ _ ih =>
      rcases List.mem_cons.mp he with rfl | he
      · exact List.mem_append_right _ List.mem_cons_self
      · exact List.mem_append_right _ (List.mem_cons_of_mem _ (ih he))

/-- Wherever a reference occurs in an expansion, its code stands before it. -/
theorem Expands.mem_before {es t l l' : List Event} {e e' : Event} (h : Expands d es t)
    (ht : t = l ++ e :: l') (hleads : Leads d e e') : e' ∈ l := by
  obtain ⟨code, hcode, he'⟩ := hleads
  induction h generalizing l l' with
  | nil => simp at ht
  | keep hkeep _ ih =>
      rcases List.cons_eq_append_iff.mp ht with ⟨rfl, heq⟩ | ⟨m, rfl, hm⟩
      · cases heq
        cases hkeep.symm.trans hcode
      · exact List.mem_cons_of_mem _ (ih hm)
  | @follow e₀ es body s t hfollow hbody _ ihbody ihrest =>
      -- The occurrence is inside the code in front, is the reference itself, or comes later.
      rcases List.append_eq_append_iff.mp ht with ⟨m, rfl, hm⟩ | ⟨m, rfl, hm⟩
      · rcases List.cons_eq_append_iff.mp hm with ⟨rfl, heq⟩ | ⟨m, rfl, hrest⟩
        · cases heq
          cases hfollow.symm.trans hcode
          exact List.mem_append_left _ (hbody.mem_of_mem he')
        · exact List.mem_append_right _ (List.mem_cons_of_mem _ (ihrest hrest))
      · rcases List.cons_eq_append_iff.mp hm with ⟨rfl, heq⟩ | ⟨m, rfl, -⟩
        · cases heq
          cases hfollow.symm.trans hcode
          simpa using hbody.mem_of_mem he'
        · exact ihbody rfl

/-- Some events expand to what is reached from them. -/
theorem Expands.mem_iff_reaches {es t : List Event} {e : Event} (h : Expands d es t) :
    e ∈ t ↔ Reaches d es e := by
  constructor
  · intro he
    induction h with
    | nil => cases he
    | keep _ _ ih =>
        rcases List.mem_cons.mp he with rfl | he
        · exact reaches_of_mem List.mem_cons_self
        · exact (ih he).mono fun _ ↦ List.mem_cons_of_mem _
    | follow hcode _ _ ihbody ihrest =>
        rcases List.mem_append.mp he with he | he
        · exact (ihbody he).of_code List.mem_cons_self hcode
        · rcases List.mem_cons.mp he with rfl | he
          · exact reaches_of_mem List.mem_cons_self
          · exact (ihrest he).mono fun _ ↦ List.mem_cons_of_mem _
  · rintro ⟨first, hfirst, hpath⟩
    induction hpath with
    | refl => exact h.mem_of_mem hfirst
    | tail _ hleads ih =>
        obtain ⟨l, l', rfl⟩ := List.append_of_mem ih
        exact List.mem_append_left _ (h.mem_before rfl hleads)

/-! ### First occurrences in a trace -/

/-- The sets of a usage are the first occurrences in a trace, and its flags say what the trace has
in it. -/
structure Traced (t : List Event) (u : Usage) : Prop where
  uniforms : u.uniforms.toList =
    (t.filterMap fun | .read (.uniform n) => some n | _ => none).eraseDups
  uniformStructs : u.uniformStructs.toList =
    (t.filterMap fun | .read (.uniformStruct n) => some n | _ => none).eraseDups
  attributes : u.attributes.toList =
    (t.filterMap fun | .read (.vertexAttribute n) => some n | _ => none).eraseDups
  varyings : u.varyings.toList =
    (t.filterMap fun | .read (.varying n) => some n | _ => none).eraseDups
  samplers : u.samplers.toList =
    (t.filterMap fun | .read (.sampler n) => some n | _ => none).eraseDups
  outputs : u.outputs.toList =
    (t.filterMap fun | .read (.output n) => some n | _ => none).eraseDups
  builtins : u.builtins.toList =
    (t.filterMap fun | .read (.builtin b) => some b | _ => none).eraseDups
  constants : u.constants.toList =
    (t.filterMap fun | .read (.constant i) => some i | _ => none).eraseDups
  helpers : u.helpers.toList =
    (t.filterMap fun | .call n => some n | _ => none).eraseDups
  bindings : u.bindings.toList =
    (t.filterMap fun
      | .read (.uniform n) => some (.uniform n)
      | .read (.uniformStruct n) => some (.uniformStruct n)
      | .read (.sampler n) => some (.sampler n)
      | _ => none).eraseDups
  writtenBuiltins : u.writtenBuiltins.toList =
    (t.filterMap fun | .write (.builtin b) => some b | _ => none).eraseDups
  writtenVaryings : u.writtenVaryings.toList =
    (t.filterMap fun | .write (.varying n) => some n | _ => none).eraseDups
  writtenOutputs : u.writtenOutputs.toList =
    (t.filterMap fun | .write (.output n) => some n | _ => none).eraseDups
  returnsValue : u.returnsValue = true ↔ .leave true ∈ t
  returnsVoid : u.returnsVoid = true ↔ .leave false ∈ t
  discards : u.discards = true ↔ .discard ∈ t

/-- Noting a trace inserts what one picks from it into a set, if every note does so. -/
theorem toList_foldl_note {α : Type} [DecidableEq α] (field : Usage → OrderedSet α)
    (pick : Event → Option α) (hempty : field .empty = .empty)
    (hnote : ∀ u e, field (u.note e) = (pick e).elim (field u) (field u).insert)
    (t : List Event) :
    (field (t.foldl note .empty)).toList = (t.filterMap pick).eraseDups := by
  have hfold : ∀ u, field (t.foldl note u) = (field u).insertAll (t.filterMap pick) := by
    induction t with
    | nil => exact fun u ↦ rfl
    | cons e t ih =>
        intro u
        rw [List.foldl_cons, ih, hnote]
        cases hpick : pick e with
        | none => rw [List.filterMap_cons_none hpick, Option.elim_none]
        | some a =>
            rw [List.filterMap_cons_some hpick, Option.elim_some]
            rfl
  rw [hfold, hempty, OrderedSet.toList_insertAll_empty]

/-- Noting a trace raises a flag if some event of it does so. -/
theorem foldl_note_eq_true (flag : Usage → Bool) (raising : Event) (hempty : flag .empty = false)
    (hnote : ∀ u e, flag (u.note e) = (decide (raising = e) || flag u)) (t : List Event) :
    flag (t.foldl note .empty) = true ↔ raising ∈ t := by
  have hfold : ∀ u, flag (t.foldl note u) = true ↔ raising ∈ t ∨ flag u = true := by
    induction t with
    | nil => simp
    | cons e t ih =>
        intro u
        rw [List.foldl_cons, ih, hnote, Bool.or_eq_true, decide_eq_true_iff, List.mem_cons,
          or_left_comm, or_assoc]
  rw [hfold, hempty]
  simp

theorem traced_foldl_note (t : List Event) : Traced t (t.foldl note .empty) := by
  refine
    { uniforms := toList_foldl_note Usage.uniforms _ rfl ?_ t
      uniformStructs := toList_foldl_note Usage.uniformStructs _ rfl ?_ t
      attributes := toList_foldl_note Usage.attributes _ rfl ?_ t
      varyings := toList_foldl_note Usage.varyings _ rfl ?_ t
      samplers := toList_foldl_note Usage.samplers _ rfl ?_ t
      outputs := toList_foldl_note Usage.outputs _ rfl ?_ t
      builtins := toList_foldl_note Usage.builtins _ rfl ?_ t
      constants := toList_foldl_note Usage.constants _ rfl ?_ t
      helpers := toList_foldl_note Usage.helpers _ rfl ?_ t
      bindings := toList_foldl_note Usage.bindings _ rfl ?_ t
      writtenBuiltins := toList_foldl_note Usage.writtenBuiltins _ rfl ?_ t
      writtenVaryings := toList_foldl_note Usage.writtenVaryings _ rfl ?_ t
      writtenOutputs := toList_foldl_note Usage.writtenOutputs _ rfl ?_ t
      returnsValue := foldl_note_eq_true Usage.returnsValue _ rfl ?_ t
      returnsVoid := foldl_note_eq_true Usage.returnsVoid _ rfl ?_ t
      discards := foldl_note_eq_true Usage.discards _ rfl ?_ t }
  -- Every note changes what it should and nothing else.
  all_goals
    intro u e
    cases e with
    | read h => cases h <;> rfl
    | write h => cases h <;> rfl
    | leave withValue => cases withValue <;> rfl
    | _ => rfl

/-- A set of first occurrences has all that is picked from the trace and nothing else. -/
theorem mem_iff_picked {α : Type} [DecidableEq α] {s : OrderedSet α} {t : List Event}
    {pick : Event → Option α} (hs : s.toList = (t.filterMap pick).eraseDups) {a : α} :
    a ∈ s ↔ ∃ e ∈ t, pick e = some a := by
  rw [OrderedSet.mem_def, hs, List.mem_eraseDups, List.mem_filterMap]

/-- What occurs in the trace already makes no difference. -/
theorem Traced.note_of_mem {t : List Event} {u : Usage} {e : Event} (hu : Traced t u)
    (he : e ∈ t) : u.note e = u := by
  have hinsert : ∀ {α : Type} [DecidableEq α] {s : OrderedSet α} {pick : Event → Option α} {a : α},
      s.toList = (t.filterMap pick).eraseDups → pick e = some a → s.insert a = s := by
    intro α _ s pick a hs hpick
    exact OrderedSet.insert_of_mem ((mem_iff_picked hs).mpr ⟨e, he, hpick⟩)
  cases e with
  | read h =>
      cases h with
      | builtin b => rw [note, addRead, hinsert hu.builtins rfl]
      | constant i => rw [note, addRead, hinsert hu.constants rfl]
      | argument i => rfl
      | localVar i j => rfl
      | uniform n =>
          rw [note, addRead, addUniform, hinsert hu.uniforms rfl, hinsert hu.bindings rfl]
      | uniformStruct n =>
          rw [note, addRead, addUniformStruct, hinsert hu.uniformStructs rfl,
            hinsert hu.bindings rfl]
      | sampler n =>
          rw [note, addRead, addSampler, hinsert hu.samplers rfl, hinsert hu.bindings rfl]
      | vertexAttribute n => rw [note, addRead, hinsert hu.attributes rfl]
      | varying n => rw [note, addRead, hinsert hu.varyings rfl]
      | output n => rw [note, addRead, hinsert hu.outputs rfl]
  | call n => rw [note, hinsert hu.helpers rfl]
  | write h =>
      cases h with
      | builtin b => rw [note, addWrite, hinsert hu.writtenBuiltins rfl]
      | varying n => rw [note, addWrite, hinsert hu.writtenVaryings rfl]
      | output n => rw [note, addWrite, hinsert hu.writtenOutputs rfl]
      | _ => rfl
  | leave withValue =>
      cases withValue with
      | true =>
          change { u with returnsValue := true } = u
          rw [← hu.returnsValue.mpr he]
      | false =>
          change { u with returnsVoid := true } = u
          rw [← hu.returnsVoid.mpr he]
  | discard =>
      change { u with discards := true } = u
      rw [← hu.discards.mpr he]

theorem foldl_note_concat (past : List Event) (e : Event) :
    (past ++ [e]).foldl note .empty = (past.foldl note .empty).note e := by
  rw [List.foldl_append]
  rfl

theorem foldl_note_of_subset {past s : List Event} (hs : ∀ e ∈ s, e ∈ past) :
    (past ++ s).foldl note .empty = past.foldl note .empty := by
  rw [List.foldl_append]
  induction s with
  | nil => rfl
  | cons e s ih =>
      obtain ⟨he, hs⟩ := List.forall_mem_cons.mp hs
      rw [List.foldl_cons, (traced_foldl_note past).note_of_mem he, ih hs]

/-- A known reference occurs in the trace. -/
theorem Traced.mem_of_knows {t : List Event} {u : Usage} {e : Event} (hu : Traced t u)
    (hknown : u.knows e = true) : e ∈ t := by
  rcases e.plain_or_reference with hplain | ⟨i, rfl⟩ | ⟨n, rfl⟩
  · unfold knows at hknown
    split at hknown
    · exact (hplain.1 _ rfl).elim
    · exact (hplain.2 _ rfl).elim
    · cases hknown
  · obtain ⟨e, he, hpick⟩ := (mem_iff_picked hu.constants).mp (of_decide_eq_true hknown)
    split at hpick <;> cases hpick
    exact he
  · obtain ⟨e, he, hpick⟩ := (mem_iff_picked hu.helpers).mp (of_decide_eq_true hknown)
    split at hpick <;> cases hpick
    exact he

/-! ### Skipping what was followed before -/

/-- Whatever a trace refers to was expanded in it before. -/
def Closed (d : Declarations) (past : List Event) : Prop :=
  ∀ e ∈ past, ∀ body, e.code? d = some body → ∃ s, Expands d body s ∧ ∀ e' ∈ s, e' ∈ past

theorem Closed.append_singleton {past : List Event} {e : Event} (hpast : Closed d past)
    (he : ∀ body, e.code? d = some body → ∃ s, Expands d body s ∧ ∀ e' ∈ s, e' ∈ past) :
    Closed d (past ++ [e]) := by
  intro e' he' body hcode
  have hs : ∃ s, Expands d body s ∧ ∀ e' ∈ s, e' ∈ past := by
    rcases List.mem_append.mp he' with he' | he'
    · exact hpast e' he' body hcode
    · rw [List.mem_singleton] at he'
      subst he'
      exact he body hcode
  obtain ⟨s, hexpands, hs⟩ := hs
  exact ⟨s, hexpands, fun e' he' ↦ List.mem_append_left _ (hs e' he')⟩

theorem Closed.append_subset {past s : List Event} (hpast : Closed d past)
    (hs : ∀ e ∈ s, e ∈ past) : Closed d (past ++ s) := by
  intro e he body hcode
  have hmem : e ∈ past := (List.mem_append.mp he).elim id (hs e)
  obtain ⟨s', hexpands, hs'⟩ := hpast e hmem body hcode
  exact ⟨s', hexpands, fun e' he' ↦ List.mem_append_left _ (hs' e' he')⟩

/-- A reference in the past is expanded without anything new. -/
theorem Closed.expands_cons {past : List Event} {e : Event} (hpast : Closed d past)
    (he : e ∈ past) : ∃ s, (∀ e' ∈ s ++ [e], e' ∈ past) ∧
      ∀ es t, Expands d es t → Expands d (e :: es) (s ++ e :: t) := by
  cases hcode : e.code? d with
  | none => exact ⟨[], by simpa using he, fun es t ht ↦ .keep hcode ht⟩
  | some body =>
      obtain ⟨s, hs, hsub⟩ := hpast e he body hcode
      refine ⟨s, ?_, fun es t ht ↦ .follow hcode hs ht⟩
      intro e' he'
      rcases List.mem_append.mp he' with he' | he'
      · exact hsub e' he'
      · exact List.mem_singleton.mp he' ▸ he

/-- A walk notes the whole expansion of what it walks over. -/
theorem Walks.expands {active : List String} {es : List Event} {u u' : Usage}
    (h : Walks d stage active es u (.ok u')) {past : List Event}
    (hu : u = past.foldl note .empty) (hpast : Closed d past) :
    ∃ t, Expands d es t ∧ u' = (past ++ t).foldl note .empty ∧ Closed d (past ++ t) := by
  generalize hr : Except.ok u' = r at h
  induction h generalizing past u' with
  | nil =>
      cases hr
      exact ⟨[], .nil, by rwa [List.append_nil], by rwa [List.append_nil]⟩
  | @seen active e es u r hknown _ ih =>
      -- The code was expanded in the past, so that noting it again makes no difference.
      have he : e ∈ past := by
        subst hu
        exact (traced_foldl_note past).mem_of_knows hknown
      obtain ⟨s, hs, hexpands⟩ := hpast.expands_cons he
      obtain ⟨t, ht, hu', hclosed⟩ :=
        ih (hu.trans (foldl_note_of_subset hs).symm) (hpast.append_subset hs) hr
      rw [List.append_assoc, List.append_assoc] at hu' hclosed
      exact ⟨s ++ e :: t, hexpands es t ht, hu', hclosed⟩
  | refused => cases hr
  | @plain active e es u r hnew hfault hcode _ ih =>
      have hu : u.note e = (past ++ [e]).foldl note .empty := by rw [hu, foldl_note_concat]
      have hclosed : Closed d (past ++ [e]) := hpast.append_singleton fun body hbody ↦ by
        cases hcode.symm.trans hbody
      obtain ⟨t, ht, hu', hclosed⟩ := ih hu hclosed hr
      rw [List.append_assoc] at hu' hclosed
      exact ⟨e :: t, .keep hcode ht, hu', hclosed⟩
  | @followed active e es body u v r hnew hfault hcode _ _ ihbody ihrest =>
      obtain ⟨s, hs, hv, hclosed⟩ := ihbody hu hpast rfl
      have hv : v.note e = (past ++ s ++ [e]).foldl note .empty := by rw [hv, foldl_note_concat]
      have hclosed : Closed d (past ++ s ++ [e]) := hclosed.append_singleton fun body' hcode' ↦ by
        cases hcode.symm.trans hcode'
        exact ⟨s, hs, fun e' he' ↦ List.mem_append_right _ he'⟩
      obtain ⟨t, ht, hu', hclosed⟩ := ihrest hv hclosed hr
      rw [List.append_assoc, List.append_assoc] at hu' hclosed
      exact ⟨s ++ e :: t, .follow hcode hs ht, hu', hclosed⟩
  | failed => cases hr

/-- A walk from nothing comes to the first occurrences in the expansion. -/
theorem Walks.exists_traced {es : List Event} {u : Usage}
    (h : Walks d stage [] es .empty (.ok u)) : ∃ t, Expands d es t ∧ Traced t u := by
  have hempty : Usage.empty = ([] : List Event).foldl note .empty := rfl
  have hclosed : Closed d [] := fun e he ↦ by cases he
  obtain ⟨t, ht, rfl, -⟩ := h.expands hempty hclosed
  exact ⟨t, ht, traced_foldl_note t⟩

/-! ### Returns -/

end Usage

mutual

/-- A statement and the statements inside of it. -/
def Statement.within : Statement → List Statement
  | .branch condition body rest =>
    .branch condition body rest :: (Block.within body ++ rest.within)
  | .forLoop index type init condition next body =>
    .forLoop index type init condition next body :: Block.within body
  | .whileLoop condition body => .whileLoop condition body :: Block.within body
  | s => [s]

/-- The statements of a block, at any depth. -/
def Block.within : List Statement → List Statement
  | [] => []
  | s :: ss => s.within ++ Block.within ss

def Otherwise.within : Otherwise → List Statement
  | .nothing => []
  | .always body => Block.within body
  | .test _ body rest => Block.within body ++ rest.within

end

namespace Usage

mutual

theorem leave_notMem_ofExpr (withValue : Bool) : ∀ e : Expr, .leave withValue ∉ Event.ofExpr e
  | .lit _ => by simp [Event.ofExpr]
  | .array _ items => by simpa [Event.ofExpr] using leave_notMem_ofExprs withValue items
  | .var _ => by simp [Event.ofExpr]
  | .unary _ a => by simpa [Event.ofExpr] using leave_notMem_ofExpr withValue a
  | .binary _ a b => by
    simp [Event.ofExpr, leave_notMem_ofExpr withValue a, leave_notMem_ofExpr withValue b]
  | .call callee args => by
    cases callee <;> simp [Event.ofExpr, leave_notMem_ofExprs withValue args]
  | .swizzle a _ => by simpa [Event.ofExpr] using leave_notMem_ofExpr withValue a
  | .field a _ => by simpa [Event.ofExpr] using leave_notMem_ofExpr withValue a
  | .index a i => by
    simp [Event.ofExpr, leave_notMem_ofExpr withValue a, leave_notMem_ofExpr withValue i]

theorem leave_notMem_ofExprs (withValue : Bool) :
    ∀ es : List Expr, .leave withValue ∉ Event.ofExprs es
  | [] => by simp [Event.ofExprs]
  | e :: es => by
    simp [Event.ofExprs, leave_notMem_ofExpr withValue e, leave_notMem_ofExprs withValue es]

end

theorem leave_notMem_ofValue (withValue : Bool) (value : Option Expr) :
    .leave withValue ∉ Event.ofValue value := by
  cases value with
  | none => simp [Event.ofValue]
  | some e => exact leave_notMem_ofExpr withValue e

theorem leave_notMem_ofTarget (withValue : Bool) (target : Expr) :
    .leave withValue ∉ Event.ofTarget target := by
  simp [Event.ofTarget_eq]

mutual

/-- The returns among the events of a statement are those inside of it, if they are its own. -/
theorem leave_mem_ofStatement {own withValue : Bool} : ∀ s : Statement,
    .leave withValue ∈ Event.ofStatement own s ↔
      own = true ∧ ∃ value, .leave value ∈ s.within ∧ value.isSome = withValue
  | .declare _ _ init => by
    simp [Event.ofStatement, Statement.within, leave_notMem_ofValue]
  | .assign target _ value => by
    simp [Event.ofStatement, Statement.within, leave_notMem_ofExpr, leave_notMem_ofTarget]
  | .leave value => by
    cases own <;>
      simp [Event.ofStatement, Event.ofReturn, Statement.within, leave_notMem_ofValue, eq_comm]
  | .skip => by simp [Event.ofStatement, Statement.within]
  | .stop => by simp [Event.ofStatement, Statement.within]
  | .discard => by simp [Event.ofStatement, Statement.within]
  | .branch condition body rest => by
    simp [Event.ofStatement, Statement.within, leave_notMem_ofExpr, leave_mem_ofBlock body,
      leave_mem_ofOtherwise rest, or_and_right, exists_or, and_or_left]
  | .forLoop _ _ init condition next body => by
    simp [Event.ofStatement, Statement.within, leave_notMem_ofExpr, leave_mem_ofBlock body]
  | .whileLoop condition body => by
    simp [Event.ofStatement, Statement.within, leave_notMem_ofExpr, leave_mem_ofBlock body]
  | .raw .. => by simp [Event.ofStatement, Statement.within]

theorem leave_mem_ofBlock {own withValue : Bool} : ∀ body : List Statement,
    .leave withValue ∈ Event.ofBlock own body ↔
      own = true ∧ ∃ value, .leave value ∈ Block.within body ∧ value.isSome = withValue
  | [] => by simp [Event.ofBlock, Block.within]
  | s :: ss => by
    simp [Event.ofBlock, Block.within, leave_mem_ofStatement s, leave_mem_ofBlock ss, or_and_right,
      exists_or, and_or_left]

theorem leave_mem_ofOtherwise {own withValue : Bool} : ∀ rest : Otherwise,
    .leave withValue ∈ Event.ofOtherwise own rest ↔
      own = true ∧ ∃ value, .leave value ∈ rest.within ∧ value.isSome = withValue
  | .nothing => by simp [Event.ofOtherwise, Otherwise.within]
  | .always body => by simp [Event.ofOtherwise, Otherwise.within, leave_mem_ofBlock body]
  | .test condition body rest => by
    simp [Event.ofOtherwise, Otherwise.within, leave_notMem_ofExpr, leave_mem_ofBlock body,
      leave_mem_ofOtherwise rest, or_and_right, exists_or, and_or_left]

end

theorem leave_notMem_code {e : Event} {body : List Event} {withValue : Bool}
    (hcode : e.code? d = some body) : .leave withValue ∉ body := by
  rcases e.plain_or_reference with hplain | ⟨i, rfl⟩ | ⟨n, rfl⟩
  · cases hplain.code?.symm.trans hcode
  · obtain ⟨value, -, rfl⟩ := Option.map_eq_some_iff.mp hcode
    exact leave_notMem_ofExpr withValue value.expr
  · obtain ⟨helper, -, rfl⟩ := Option.map_eq_some_iff.mp hcode
    simp [Event.ofHelper, leave_mem_ofBlock, leave_notMem_ofValue]

/-- No helper and no constant returns from the entry point. -/
theorem Expands.leave_mem_iff {es t : List Event} {withValue : Bool} (h : Expands d es t) :
    .leave withValue ∈ t ↔ .leave withValue ∈ es := by
  refine ⟨fun hmem ↦ ?_, h.mem_of_mem⟩
  obtain ⟨first, hfirst, hpath⟩ := h.mem_iff_reaches.mp hmem
  rcases hpath.cases_tail with rfl | ⟨e, -, body, hcode, hbody⟩
  · exact hfirst
  · exact absurd hbody (leave_notMem_code hcode)

/-! ### Analysis -/

theorem returnsValue_iff {body : Block} {u : Usage} (h : Usage.of d stage body = .ok u) :
    u.returnsValue = true ↔ ∃ e, .leave (some e) ∈ Block.within body := by
  obtain ⟨t, ht, hu⟩ := (walks_of_eq_ok h).exists_traced
  rw [hu.returnsValue, ht.leave_mem_iff, leave_mem_ofBlock]
  constructor
  · rintro ⟨-, value, hvalue, hsome⟩
    obtain ⟨e, rfl⟩ := Option.isSome_iff_exists.mp hsome
    exact ⟨e, hvalue⟩
  · rintro ⟨e, he⟩
    exact ⟨rfl, some e, he, rfl⟩

theorem returnsVoid_iff {body : Block} {u : Usage} (h : Usage.of d stage body = .ok u) :
    u.returnsVoid = true ↔ .leave none ∈ Block.within body := by
  obtain ⟨t, ht, hu⟩ := (walks_of_eq_ok h).exists_traced
  rw [hu.returnsVoid, ht.leave_mem_iff, leave_mem_ofBlock]
  simp

/-- A body that succeeds has one inline expansion, and its usage holds what first occurs there.  The
flags for returns are about the body's own statements. -/
theorem traced_inline_expansion (d : Declarations) (stage : Stage) (body : Block) (u : Usage)
    (h : Usage.of d stage body = .ok u) :
    (∃! t, Expands d (Event.ofBlock true body) t) ∧
    (∀ t, Expands d (Event.ofBlock true body) t → Traced t u) ∧
    (u.returnsValue = true ↔ ∃ e, .leave (some e) ∈ Block.within body) ∧
    (u.returnsVoid = true ↔ .leave none ∈ Block.within body) := by
  obtain ⟨t, ht, hu⟩ := (walks_of_eq_ok h).exists_traced
  refine ⟨⟨t, ht, fun t' ht' ↦ ht'.unique ht⟩, ?_, returnsValue_iff h, returnsVoid_iff h⟩
  intro t' ht'
  rwa [ht'.unique ht]

/-- A helper that another one calls, a constant that both the helper and a body read, and an output
of which an element is assigned. -/
def layered : Declarations :=
  { Declarations.empty with
    uniforms := ((Table.empty.add "tint" ⟨.float, ⟨0, none⟩⟩).add "level" ⟨.float, ⟨0, none⟩⟩).add
      "slot" ⟨.ofPrim (.vector .int .one), ⟨0, none⟩⟩
    outputs := Table.empty.add "albedo" ⟨.ofPrim (.vector .float .four), none⟩
    constants := #[⟨.float, .var (.uniform "level")⟩]
    helpers := (Table.empty.add "fade" ⟨[], [], some ⟨.float, .var (.constant 0)⟩⟩).add "shade"
      ⟨[], [], some ⟨.float, .binary .mul (.var (.uniform "tint")) (.call (.helper "fade") [])⟩⟩ }

def layeredBody : Block :=
  [.branch (.var (.constant 0)) [.leave none] .nothing,
    .assign (.index (.var (.output "albedo")) (.var (.uniform "slot"))) none (.var (.constant 0)),
    .assign (.var (.builtin .fragColor)) none (.var (.output "albedo")),
    .leave (some (.binary .add (.call (.helper "shade") []) (.call (.helper "fade") [])))]

theorem traced_inline_expansion_layered :
    ∃ u, Usage.of layered .fragment layeredBody = .ok u ∧
      u.bindings.toList = [.uniform "level", .uniform "slot", .uniform "tint"] ∧
      u.helpers.toList = ["fade", "shade"] ∧ u.writtenOutputs.toList = ["albedo"] ∧
      u.writtenBuiltins.toList = [.fragColor] ∧ u.writtenVaryings.toList = [] ∧
      u.returnsValue = true ∧ u.returnsVoid = true ∧
      (∃! t, Expands layered (Event.ofBlock true layeredBody) t) ∧
      ∀ t, Expands layered (Event.ofBlock true layeredBody) t → Traced t u := by
  refine ⟨_, rfl, rfl, rfl, rfl, rfl, rfl, rfl, rfl, ?_⟩
  obtain ⟨hunique, htraced, -⟩ := traced_inline_expansion layered .fragment layeredBody _ rfl
  exact ⟨hunique, htraced⟩

end Usage

end Shading
