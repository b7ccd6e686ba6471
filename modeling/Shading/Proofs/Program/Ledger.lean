import Shading.Proofs.Program.NameSpaces

/-!
# What has been declared

A run declares what its accepted actions say, and nothing else.  Names are taken once in each name
space, a declaration stays as it was made, constants are numbered in the order of their
declaration, and an action that is refused might as well not have been tried.
-/

namespace Shading.Action

/-! ### Runs -/

/-- The actions that are accepted when they are tried one after the other. -/
def acceptedFrom (p : Program) : List Action → List Action
  | [] => []
  | a :: rest =>
    match a.outcome p with
    | .ok q => a :: acceptedFrom q rest
    | .error _ => acceptedFrom p rest

/-- The accepted actions of a run. -/
def accepted (actions : List Action) : List Action :=
  acceptedFrom .empty actions

theorem acceptedFrom_append (p : Program) (actions more : List Action) :
    acceptedFrom p (actions ++ more) =
      acceptedFrom p actions ++ acceptedFrom (actions.foldl perform p) more := by
  induction actions generalizing p with
  | nil => rfl
  | cons a actions ih =>
      rw [List.cons_append, acceptedFrom, acceptedFrom, List.foldl_cons]
      cases houtcome : a.outcome p with
      | ok q =>
          rw [perform_of_ok houtcome, List.cons_append]
          exact congrArg (a :: ·) (ih q)
      | error e =>
          rw [perform_of_error houtcome]
          exact ih p

end Shading.Action

namespace Shading.Program

open Shading.Action

/-- The program has what the actions in a list declare, and nothing else. -/
structure DeclaredBy (p : Program) (log : List Action) : Prop where
  /-- No name is taken twice in a name space. -/
  once : (log.filterMap claim).Nodup
  taken : ∀ space name, name ∈ p.names space ↔ (space, name) ∈ log.filterMap claim
  entries : ∀ kind, kind ≠ .struct → (p.table kind).entries = log.flatMap (declares kind)
  structs : p.structs = Table.empty.addAll (log.flatMap (declares .struct))
  constants : p.constants.toList = log.filterMap constant?
  room : p.constants.size ≤ maxConstants

theorem declaredBy_empty : Program.empty.DeclaredBy [] where
  once := List.nodup_nil
  taken space name := by
    have hnone : Program.empty.names space = [] := by cases space <;> rfl
    rw [hnone]
    exact iff_of_false List.not_mem_nil List.not_mem_nil
  entries kind _ := by cases kind <;> rfl
  structs := rfl
  constants := rfl
  room := Nat.zero_le _

theorem DeclaredBy.accept {p q : Program} {log : List Action} {a : Action} (h : p.DeclaredBy log)
    (ha : Accepts p a q) : q.DeclaredBy (log ++ [a]) where
  once := by
    rw [List.filterMap_append, List.nodup_append]
    refine ⟨h.once, ?_, ?_⟩
    · cases hclaim : a.claim <;> simp [hclaim]
    · rintro ⟨space, name⟩ hmem _ hnew rfl
      have hclaim : a.claim = some (space, name) := by simpa using hnew
      exact ha.free hclaim ((h.taken space name).mpr hmem)
  taken space name := by
    rw [ha.names_iff, h.taken, List.filterMap_append, List.mem_append]
    simp
  entries kind hkind := by
    rw [ha.table, List.flatMap_append, List.flatMap_singleton, ← h.entries kind hkind]
    rcases ha.declares_cases with ⟨-, hnone⟩ | ⟨space, name, kind', decl, hclaim, hsome, hin, hone⟩
    · rw [declares_eq_nil (by simp [hnone]) hkind]
      exact (List.append_nil _).symm
    · by_cases heq : kind' = kind
      · subst heq
        have hfree : (p.table kind').contains name = false := by
          rw [← Bool.not_eq_true, Table.contains_iff]
          exact fun hname ↦ ha.free hclaim (mem_names.mpr ⟨kind', hin, hname⟩)
        rw [hone]
        exact Table.entries_add_of_new hfree decl
      · rw [declares_eq_nil (by simp [hsome, heq]) hkind]
        exact (List.append_nil _).symm
  structs := by
    rw [List.flatMap_append, List.flatMap_singleton, Table.addAll_append, ← h.structs]
    exact ha.table .struct
  constants := by
    rw [ha.constants, h.constants, List.filterMap_append]
    cases hconstant : a.constant? <;> simp [hconstant]
  room := ha.room h.room

/-- Whatever is tried, the program has what was accepted. -/
theorem DeclaredBy.foldl {p : Program} {log : List Action} (h : p.DeclaredBy log)
    (actions : List Action) :
    (actions.foldl perform p).DeclaredBy (log ++ acceptedFrom p actions) := by
  induction actions generalizing p log with
  | nil =>
      rw [acceptedFrom, List.append_nil]
      exact h
  | cons a actions ih =>
      rw [acceptedFrom, List.foldl_cons]
      cases houtcome : a.outcome p with
      | ok q =>
          rw [perform_of_ok houtcome]
          have hlog :
              log ++ a :: acceptedFrom q actions = log ++ [a] ++ acceptedFrom q actions := by
            rw [List.append_assoc, List.singleton_append]
          dsimp only
          rw [hlog]
          exact ih (h.accept (outcome_eq_ok_iff.mp houtcome))
      | error e =>
          rw [perform_of_error houtcome]
          exact ih h

/-- Every struct in a declared struct uniform is known by its name. -/
theorem DeclaredBy.registered {p : Program} {log : List Action} (h : p.DeclaredBy log)
    {name : String} {u : StructUniformDecl} (hu : p.uniformStructs.get? name = some u)
    {s : StructDef} (hs : s ∈ u.struct.within) : p.structs.contains s.name = true := by
  have hmem : (name, u) ∈ log.flatMap (declares .structUniform) := by
    rw [← h.entries .structUniform (by decide)]
    exact Table.mem_of_get? hu
  obtain ⟨a, ha, hdeclares⟩ := List.mem_flatMap.mp hmem
  cases a with
  | uniformStruct other struct binding =>
      cases List.mem_singleton.mp hdeclares
      obtain ⟨s', hs', hname⟩ := struct.gathers_withDependencies.listed s hs
      rw [h.structs, Table.contains_iff, Table.mem_keys_addAll]
      refine .inr (List.mem_map.mpr ⟨(s.name, s'), List.mem_flatMap.mpr ⟨_, ha, ?_⟩, rfl⟩)
      exact List.mem_map.mpr ⟨s', hs', by rw [hname]⟩
  | _ => cases hdeclares

theorem Reachable.nodup_names {p : Program} (hp : p.Reachable) (space : NameSpace) :
    (p.names space).Nodup := by
  have hapart := hp.sound.apart
  have hkeys : ∀ kind, (p.table kind).keys.Nodup := fun kind ↦ (p.table kind).nodup
  cases space with
  | resource =>
      have hnames : p.names .resource =
          p.uniforms.keys ++ p.uniformStructs.keys ++ p.samplers.keys := by
        simp [names, NameSpace.kinds, table]
      rw [hnames, List.nodup_append, List.nodup_append]
      refine ⟨⟨hkeys .uniform, hkeys .structUniform, ?_⟩, hkeys .sampler, ?_⟩
      · rintro name huniform _ hstruct rfl
        exact hapart.uniform_struct name (Table.contains_iff.mpr huniform)
          (Table.contains_iff.mpr hstruct)
      · rintro name hmem _ hsampler rfl
        have hsampler := Table.contains_iff.mpr hsampler
        rcases List.mem_append.mp hmem with huniform | hstruct
        · exact hapart.uniform_sampler name (Table.contains_iff.mpr huniform) hsampler
        · exact hapart.struct_sampler name (Table.contains_iff.mpr hstruct) hsampler
  | _ =>
      simp only [names, NameSpace.kinds, List.flatMap_singleton]
      exact hkeys _

end Shading.Program

namespace Shading.Action

theorem prefix_foldl (p : Program) (actions : List Action) (kind : DeclKind) :
    (p.table kind).entries <+: ((actions.foldl perform p).table kind).entries := by
  induction actions generalizing p with
  | nil => exact List.prefix_rfl
  | cons a actions ih =>
      refine List.IsPrefix.trans ?_ (ih (a.perform p))
      cases houtcome : a.outcome p with
      | ok q =>
          rw [perform_of_ok houtcome, (outcome_eq_ok_iff.mp houtcome).table]
          exact Table.prefix_addAll _ _
      | error e => rw [perform_of_error houtcome]

/-- What has been declared when some actions were performed, and what becomes of it when more
follow. -/
structure Ledger (before after : List Action) : Prop where
  /-- The program has what was accepted, and nothing else. -/
  declared : (run before).DeclaredBy (accepted before)
  /-- No name stands for two things. -/
  names : ∀ space, ((run before).names space).Nodup
  /-- Every struct in a declared struct uniform is known by its name. -/
  registered : ∀ name u, (run before).uniformStructs.get? name = some u →
    ∀ s ∈ u.struct.within, (run before).structs.contains s.name = true
  logged : accepted before <+: accepted (before ++ after)
  /-- Declarations are never changed, and new ones come after the old ones. -/
  kept : ∀ kind, ((run before).table kind).entries <+: ((run (before ++ after)).table kind).entries
  /-- A constant has the number of constants before it, and stands for its value ever after. -/
  constant : ∀ value term q, (Program.addConstant value).make (run before) = (.ok term, q) →
    term = .ofHandle value.type (.constant ((accepted before).filterMap constant?).length) ∧
      (run (before ++ .constant value :: after)).constant
        ((accepted before).filterMap constant?).length = .ok value
  /-- When an action is refused, and with which error. -/
  refused : ∀ a e, (a.change.make (run before)).1 = .error e ↔ Refuses (run before) a e
  /-- An action that is refused leaves the program as it was, and might as well not have been
  tried. -/
  undone : ∀ a e, Refuses (run before) a e → a.change.make (run before) = (.error e, run before) ∧
    run (before ++ a :: after) = run (before ++ after)
  /-- One definition that differs from a known one is enough to refuse a struct uniform, and then
  no other definition is kept. -/
  conflict : ∀ name struct binding, (∃ s ∈ struct.withDependencies,
      (run before).conflicts s = true) →
    ∃ e, (Program.addUniformStruct name struct binding).make (run before) =
        (.error e, run before) ∧
      run (before ++ .uniformStruct name struct binding :: after) = run (before ++ after)

theorem constant_stays {before : List Action} {value term : Term} {q : Program}
    (h : (Program.addConstant value).make (run before) = (.ok term, q)) (after : List Action) :
    term = .ofHandle value.type (.constant (run before).constants.size) ∧
      (run (before ++ .constant value :: after)).constant (run before).constants.size =
        .ok value := by
  rw [Program.make_addConstant] at h
  split at h
  · next hroom =>
      cases h
      have haccepts : Accepts (run before) (.constant value) _ := .constant hroom
      have hperform := perform_of_ok (outcome_eq_ok_iff.mpr haccepts)
      rw [run_append, List.foldl_cons, hperform, Declarations.constant_eq_ok]
      exact ⟨rfl, (confirms_foldl _ after).declarations.constants _ _ Array.getElem?_push_size⟩
  · cases h

/-- Declarations are atomic and permanent. -/
theorem ledger_of_run (before after : List Action) : Ledger before after := by
  have hreachable := reachable_run before
  have hdeclared : (run before).DeclaredBy (accepted before) :=
    Program.declaredBy_empty.foldl before
  have hundone : ∀ a e, Refuses (run before) a e → a.change.make (run before) =
      (.error e, run before) ∧ run (before ++ a :: after) = run (before ++ after) := by
    intro a e he
    refine ⟨make_of_refuses he, ?_⟩
    rw [run_append, run_append, List.foldl_cons, perform, make_of_refuses he]
  refine ⟨hdeclared, hreachable.nodup_names, fun _ _ hu _ ↦ hdeclared.registered hu, ?_, ?_, ?_,
    fun _ _ ↦ make_eq_error_iff, hundone, ?_⟩
  · rw [accepted, accepted, acceptedFrom_append]
    exact List.prefix_append _ _
  · intro kind
    rw [run_append]
    exact prefix_foldl _ _ kind
  · intro value term q h
    have hcount : ((accepted before).filterMap constant?).length = (run before).constants.size := by
      rw [← hdeclared.constants, Array.length_toList]
    rw [hcount]
    exact constant_stays h after
  · rintro name struct binding ⟨s, hs, hconflict⟩
    by_cases hname : name ∈ (run before).names .resource
    · exact ⟨_, hundone (.uniformStruct name struct binding) _ (.taken rfl hname)⟩
    · have hsome : (struct.withDependencies.find? (run before).conflicts).isSome = true := by
        rw [List.find?_isSome]
        exact ⟨s, hs, hconflict⟩
      obtain ⟨first, hfirst⟩ := Option.isSome_iff_exists.mp hsome
      exact ⟨_, hundone (.uniformStruct name struct binding) _ (.conflict hname hfirst)⟩

/-- A struct uniform with an array of lights, and a constant. -/
def lighting : List Action :=
  let light := StructDef.mk "Light" [.value "power" .float]
  [uniformStruct "scene" (.mk "Scene" [.nested "lights" light (some 2)]) ⟨0, none⟩,
    constant (.ofHandle .float (.uniform "gain"))]

/-- A struct uniform with two structs, of which the second one differs from the known light. -/
def relighting : StructDef :=
  .mk "Room" [.nested "fog" (.mk "Fog" [.value "depth" .float]) none,
    .nested "light" (.mk "Light" [.value "color" (.ofPrim (.vector .float .three))]) none]

theorem ledger_of_run_lighting :
    (Program.addUniformStruct "room" relighting ⟨0, none⟩).make (run lighting) =
        (.error (.duplicate .struct "Light"), run lighting) ∧
      run (lighting ++ [uniformStruct "room" relighting ⟨0, none⟩]) = run lighting ∧
      (run lighting).structs.keys = ["Light", "Scene"] ∧
      ∃ value, (run (lighting ++ [constant value, uniform "room" .float ⟨0, none⟩])).constant 1 =
        .ok value := by
  have hrefuses : Refuses (run lighting) (uniformStruct "room" relighting ⟨0, none⟩)
      (.duplicate .struct "Light") := by
    have hfirst : relighting.withDependencies.find? (run lighting).conflicts =
        some (.mk "Light" [.value "color" (.ofPrim (.vector .float .three))]) := by decide +kernel
    exact .conflict (by decide +kernel) hfirst
  obtain ⟨hmake, hrun⟩ := (ledger_of_run lighting []).undone _ _ hrefuses
  have hlater := ledger_of_run lighting [uniform "room" .float ⟨0, none⟩]
  obtain ⟨-, hvalue⟩ := hlater.constant (.ofHandle .float (.constant 0)) _ _ rfl
  exact ⟨hmake, hrun, by decide +kernel, _, hvalue⟩

end Shading.Action
