import Shading.Proofs.Emission.Structs
import Shading.Proofs.Program.Observation

/-!
# The order of struct declarations

The definitions that a struct nests come before it, however often they occur and whatever else is
nested under their names.  This stays so when the definitions of several struct uniforms are merged,
where the first definition of every name is kept, and so it holds of the structs that shaders and
modules declare.
-/

namespace Shading

/-! ### Lists in which names come before their uses -/

section

variable {α : Type} {name : α → String} {uses : α → List String}

/-- Every name that a member uses is the name of a member before it. -/
def UsesEarlier (name : α → String) (uses : α → List String) (xs : List α) : Prop :=
  ∀ first a rest, xs = first ++ a :: rest → ∀ n ∈ uses a, n ∈ first.map name

/-- Names are declared once, after all the names that they use. -/
structure InOrder (name : α → String) (uses : α → List String) (xs : List α) : Prop where
  nodup : (xs.map name).Nodup
  earlier : UsesEarlier name uses xs

theorem usesEarlier_nil : UsesEarlier name uses [] := by
  intro first a rest h
  simp at h

theorem usesEarlier_concat_iff {xs : List α} {a : α} : UsesEarlier name uses (xs ++ [a]) ↔
    UsesEarlier name uses xs ∧ ∀ n ∈ uses a, n ∈ xs.map name := by
  constructor
  · intro h
    refine ⟨?_, h xs a [] rfl⟩
    rintro first b rest rfl
    exact h first b (rest ++ [a]) (by simp)
  · rintro ⟨hxs, ha⟩ first b rest heq
    rcases List.eq_nil_or_concat rest with rfl | ⟨rest, c, rfl⟩
    · obtain ⟨rfl, hb⟩ := List.append_inj' heq rfl
      cases hb
      exact ha
    · have hsplit : xs ++ [a] = (first ++ b :: rest) ++ [c] := by simpa using heq
      obtain ⟨rfl, -⟩ := List.append_inj' hsplit rfl
      exact hxs first b rest rfl

theorem UsesEarlier.append {xs ys : List α} (hxs : UsesEarlier name uses xs)
    (hys : UsesEarlier name uses ys) : UsesEarlier name uses (xs ++ ys) := by
  induction ys using List.reverseRecOn with
  | nil => rwa [List.append_nil]
  | append_singleton ys a ih =>
      obtain ⟨hys, ha⟩ := usesEarlier_concat_iff.mp hys
      rw [← List.append_assoc, usesEarlier_concat_iff]
      refine ⟨ih hys, fun n hn ↦ ?_⟩
      rw [List.map_append]
      exact List.mem_append_right _ (ha n hn)

theorem UsesEarlier.flatMap {β : Type} {f : β → List α} (h : ∀ b, UsesEarlier name uses (f b))
    (items : List β) : UsesEarlier name uses (items.flatMap f) := by
  induction items with
  | nil => exact usesEarlier_nil
  | cons b items ih => exact (h b).append ih

theorem UsesEarlier.map {β : Type} {name' : β → String} {uses' : β → List String} {f : α → β}
    (hname : ∀ a, name' (f a) = name a) (huses : ∀ a, uses' (f a) = uses a) {xs : List α}
    (h : UsesEarlier name uses xs) : UsesEarlier name' uses' (xs.map f) := by
  intro first b rest heq n hn
  obtain ⟨first, tail, rfl, rfl, htail⟩ := List.map_eq_append_iff.mp heq
  obtain ⟨a, rest, rfl, rfl, rfl⟩ := List.map_eq_cons_iff.mp htail
  rw [huses] at hn
  have hnames : (first.map f).map name' = first.map name := by simp [Function.comp_def, hname]
  rw [hnames]
  exact h first a rest rfl n hn

theorem InOrder.map {β : Type} {name' : β → String} {uses' : β → List String} {f : α → β}
    (hname : ∀ a, name' (f a) = name a) (huses : ∀ a, uses' (f a) = uses a) {xs : List α}
    (h : InOrder name uses xs) : InOrder name' uses' (xs.map f) := by
  refine ⟨?_, h.earlier.map hname huses⟩
  have hnames : (xs.map f).map name' = xs.map name := by simp [Function.comp_def, hname]
  rw [hnames]
  exact h.nodup

end

/-! ### Dependencies -/

def Field.struct? : Field → Option StructDef
  | .value .. => none
  | .nested _ s _ => some s

namespace StructDef

/-- The names of the structs that are types of fields. -/
def usedNames (s : StructDef) : List String :=
  (s.fields.filterMap Field.struct?).map name

theorem mem_usedNames {s : StructDef} {n : String} :
    n ∈ s.usedNames ↔ ∃ field t l, .nested field t l ∈ s.fields ∧ t.name = n := by
  rw [usedNames, List.mem_map]
  constructor
  · rintro ⟨t, ht, rfl⟩
    obtain ⟨f, hf, hstruct⟩ := List.mem_filterMap.mp ht
    cases f with
    | value => cases hstruct
    | nested field t' l =>
        cases hstruct
        exact ⟨field, t, l, hf, rfl⟩
  · rintro ⟨field, t, l, hmem, rfl⟩
    exact ⟨t, List.mem_filterMap.mpr ⟨_, hmem, rfl⟩, rfl⟩

theorem usesEarlier_insert {known : List StructDef} {s : StructDef}
    (h : UsesEarlier name usedNames known) (hs : ∀ n ∈ s.usedNames, n ∈ known.map name) :
    UsesEarlier name usedNames
      (if known.any (·.name == s.name) then known else known ++ [s]) := by
  split
  · exact h
  · exact usesEarlier_concat_iff.mpr ⟨h, hs⟩

end StructDef

mutual

/-- A definition is listed after its fields were, so the names that they use are there. -/
theorem StructDef.usesEarlier_collect {known : List StructDef}
    (h : UsesEarlier StructDef.name StructDef.usedNames known) :
    ∀ s : StructDef, UsesEarlier StructDef.name StructDef.usedNames (s.collect known)
  | .mk n fs => by
      apply StructDef.usesEarlier_insert (s := .mk n fs) (Field.usesEarlier_collectAll h fs)
      intro m hm
      obtain ⟨field, t, l, hmem, rfl⟩ := StructDef.mem_usedNames.mp hm
      have hwithin : t ∈ Field.withinAll fs :=
        Field.mem_withinAll.mpr ⟨field, t, l, hmem, t.mem_within_self⟩
      exact (Field.gathers_collectAll known fs).mem_names.mpr (.inr (List.mem_map_of_mem hwithin))

theorem Field.usesEarlier_collectAll {known : List StructDef}
    (h : UsesEarlier StructDef.name StructDef.usedNames known) :
    ∀ fs : List Field,
      UsesEarlier StructDef.name StructDef.usedNames (Field.collectAll known fs)
  | [] => h
  | f :: fs => Field.usesEarlier_collectAll (Field.usesEarlier_collect h f) fs

theorem Field.usesEarlier_collect {known : List StructDef}
    (h : UsesEarlier StructDef.name StructDef.usedNames known) :
    ∀ f : Field, UsesEarlier StructDef.name StructDef.usedNames (Field.collect known f)
  | .value .. => h
  | .nested _ s _ => StructDef.usesEarlier_collect h s

end

namespace StructDef

theorem inOrder_withDependencies (s : StructDef) : InOrder name usedNames s.withDependencies :=
  ⟨s.nodup_withDependencies, usesEarlier_collect usesEarlier_nil s⟩

/-- The dependencies have all the names in the definition and no others. -/
theorem mem_names_withDependencies {s : StructDef} {n : String} :
    n ∈ s.withDependencies.map name ↔ ∃ t ∈ s.within, t.name = n := by
  rw [s.gathers_withDependencies.mem_names, List.map_nil, List.mem_nil_iff, false_or, List.mem_map]

/-! ### Merging -/

theorem usesEarlier_merge {known more : List StructDef} (hknown : UsesEarlier name usedNames known)
    (hmore : UsesEarlier name usedNames more) :
    UsesEarlier name usedNames (merge known more) := by
  -- From the end of the list, so that all that the last definition uses is already merged.
  induction more using List.reverseRecOn with
  | nil => exact hknown
  | append_singleton more s ih =>
      obtain ⟨hmore, hs⟩ := usesEarlier_concat_iff.mp hmore
      have hstep : merge known (more ++ [s]) =
          if (merge known more).any (·.name == s.name) then merge known more
          else merge known more ++ [s] := List.foldl_append
      rw [hstep]
      apply usesEarlier_insert (ih hmore)
      intro n hn
      exact (gathers_merge known more).mem_names.mpr (.inr (hs n hn))

/-- Merging keeps the first definition of every name. -/
theorem find?_merge (known more : List StructDef) (n : String) :
    (merge known more).find? (·.name == n) = (known ++ more).find? (·.name == n) := by
  induction more generalizing known with
  | nil => rw [List.append_nil, merge, List.foldl_nil]
  | cons s more ih =>
      have hstep : merge known (s :: more) =
          merge (if known.any (·.name == s.name) then known else known ++ [s]) more := rfl
      rw [hstep, ih]
      split
      · -- The name is known, so leaving out a later definition of it changes nothing.
        next hknown =>
          rw [List.find?_append, List.find?_append, List.find?_cons]
          split
          · next hs =>
              rw [← eq_of_beq hs]
              obtain ⟨t, ht⟩ := Option.isSome_iff_exists.mp
                (List.find?_isSome.mpr (List.any_eq_true.mp hknown))
              rw [ht, Option.some_or, Option.some_or]
          · rfl
      · rw [List.append_assoc, List.singleton_append]

theorem mem_merge_iff {given : List StructDef} {s : StructDef} :
    s ∈ merge [] given ↔ given.find? (·.name == s.name) = some s := by
  have hfind : (merge [] given).find? (·.name == s.name) = given.find? (·.name == s.name) :=
    find?_merge [] given s.name
  rw [← hfind]
  refine ⟨fun hs ↦ ?_, List.mem_of_find?_eq_some⟩
  rw [← List.head?_filter,
    filter_eq_singleton ((gathers_merge [] given).nodup List.nodup_nil) hs, List.head?_singleton]

end StructDef

/-! ### Declared structs -/

/-- The structs that are the types of members. -/
def Code.usedStructs (members : List (String × TypeName)) : List String :=
  members.filterMap fun m ↦
    match m.2.base with
    | .prim _ => none
    | .named n => some n

theorem StructDef.usedStructs_members (s : StructDef) :
    Code.usedStructs s.members = s.usedNames := by
  rw [Code.usedStructs, members, List.filterMap_map, usedNames, List.map_filterMap]
  apply List.filterMap_congr
  intro f _
  cases f <;> rfl

/-- The dependencies of the struct uniforms that are used, in the order of their use. -/
def Usage.dependencies (u : Usage) (d : Declarations) : List StructDef :=
  u.uniformStructs.toList.flatMap fun name ↦
    (d.uniformStructs.get? name).elim [] fun decl ↦ decl.struct.withDependencies

theorem mem_names_dependencies {u : Usage} {d : Declarations} {n : String} :
    n ∈ (u.dependencies d).map StructDef.name ↔ ∃ uniform ∈ u.uniformStructs, ∃ decl,
      d.uniformStructs.get? uniform = some decl ∧ ∃ t ∈ decl.struct.within, t.name = n := by
  rw [Usage.dependencies, List.map_flatMap, List.mem_flatMap]
  apply exists_congr
  intro uniform
  apply and_congr_right
  intro _
  cases d.uniformStructs.get? uniform with
  | none => simp
  | some decl => simp [← StructDef.mem_names_withDependencies]

/-- If every use is declared, the dependencies are those of the declarations. -/
theorem flatMap_of_mapM {α : Type} {u : Usage} {d : Declarations} {find : String → Except Error α}
    {struct : α → StructDef} {used : List α} (h : u.uniformStructs.toList.mapM find = .ok used)
    (hfind : ∀ name a, find name = .ok a →
      ∃ decl, d.uniformStructs.get? name = some decl ∧ decl.struct = struct a) :
    used.flatMap (fun a ↦ (struct a).withDependencies) = u.dependencies d := by
  rw [Usage.dependencies, List.flatMap_def, List.flatMap_def]
  congr 1
  apply map_mapM h
  intro name _ a ha
  obtain ⟨decl, hdecl, hstruct⟩ := hfind name a ha
  rw [hdecl, Option.elim_some, hstruct]

/-- What is declared for the struct uniforms of a usage: the first definition of every name in them,
in order. -/
structure DeclaresStructs (d : Declarations) (u : Usage)
    (structs : List (String × List (String × Code.TypeName))) : Prop where
  inOrder : InOrder Prod.fst (fun s ↦ Code.usedStructs s.2) structs
  names : ∀ n, n ∈ structs.map Prod.fst ↔ ∃ uniform ∈ u.uniformStructs, ∃ decl,
    d.uniformStructs.get? uniform = some decl ∧ ∃ t ∈ decl.struct.within, t.name = n
  first : ∀ s ∈ structs, ∃ t, (u.dependencies d).find? (·.name == s.1) = some t ∧
    s = (t.name, t.members)

theorem declaresStructs_merge (d : Declarations) (u : Usage) :
    DeclaresStructs d u
      ((StructDef.merge [] (u.dependencies d)).map fun t ↦ (t.name, t.members)) where
  inOrder := by
    have horder : InOrder StructDef.name StructDef.usedNames
        (StructDef.merge [] (u.dependencies d)) := by
      refine ⟨(StructDef.gathers_merge [] _).nodup List.nodup_nil, ?_⟩
      apply StructDef.usesEarlier_merge usesEarlier_nil
      apply UsesEarlier.flatMap
      intro name
      cases d.uniformStructs.get? name with
      | none => exact usesEarlier_nil
      | some decl => exact decl.struct.inOrder_withDependencies.earlier
    apply horder.map
    · intro t
      rfl
    · intro t
      exact t.usedStructs_members
  names n := by
    have hfst : ((StructDef.merge [] (u.dependencies d)).map fun t ↦ (t.name, t.members)).map
        Prod.fst = (StructDef.merge [] (u.dependencies d)).map StructDef.name := by
      rw [List.map_map]
      rfl
    rw [hfst, (StructDef.gathers_merge [] _).mem_names, List.map_nil, List.mem_nil_iff, false_or,
      mem_names_dependencies]
  first s hs := by
    obtain ⟨t, ht, rfl⟩ := List.mem_map.mp hs
    exact ⟨t, StructDef.mem_merge_iff.mp ht, rfl⟩

theorem DeclaresStructs.mem_names {d : Declarations} {u : Usage}
    {structs : List (String × List (String × Code.TypeName))} (h : DeclaresStructs d u structs)
    {name : String} (hname : name ∈ u.uniformStructs) {decl : StructUniformDecl}
    (hdecl : d.uniformStructs.get? name = some decl) :
    decl.struct.name ∈ structs.map Prod.fst :=
  (h.names _).mpr ⟨name, hname, decl, hdecl, decl.struct, decl.struct.mem_within_self, rfl⟩

theorem Wgsl.declaresStructs {e : Emission} {ss : List Struct} (h : structs e = .ok ss) :
    DeclaresStructs e.decls e.usage (ss.map Struct.members) := by
  obtain ⟨used, hused, rfl⟩ := structs_eq_ok h
  have hfind : ∀ name u, e.decls.uniformStruct name = .ok u →
      ∃ decl, e.decls.uniformStructs.get? name = some decl ∧ decl.struct = u.struct :=
    fun name u hu ↦ ⟨u, Declarations.find_eq_ok.mp hu, rfl⟩
  have hmembers : Struct.members ∘ structOf = fun s ↦ (s.name, s.members) :=
    funext members_structOf
  rw [flatMap_of_mapM hused hfind, List.map_map, hmembers]
  exact declaresStructs_merge e.decls e.usage

theorem Glsl.declaredStructs_es100 {e : Emission} {used : List (String × StructDef)}
    (hused : usedStructs e = .ok used) :
    declaredStructs .es100 used = StructDef.merge [] (e.usage.dependencies e.decls) := by
  have hfind : ∀ name u, (return (name, (← e.decls.uniformStruct name).struct)) = Except.ok u →
      ∃ decl, e.decls.uniformStructs.get? name = some decl ∧ decl.struct = u.2 := by
    intro name u hu
    obtain ⟨decl, hdecl, hu⟩ := bind_eq_ok.mp hu
    cases hu
    exact ⟨decl, Declarations.find_eq_ok.mp hdecl, rfl⟩
  rw [declaredStructs_eq, ← flatMap_of_mapM hused hfind]
  rfl

theorem Glsl.declaresStructs {e : Emission} {gs : List Global} (h : uniforms e .es100 = .ok gs) :
    DeclaresStructs e.decls e.usage (gs.filterMap Global.struct?) := by
  obtain ⟨used, hused, hstructs⟩ := structs_of_uniforms h
  rw [hstructs, declaredStructs_es100 hused]
  exact declaresStructs_merge e.decls e.usage

/-- A definition is listed with all that it nests, each name once and after the names that it uses.
Modules and shaders in version 1.00 declare the structs of all used struct uniforms so. -/
theorem structs_declared_in_order :
    (∀ d : StructDef, InOrder StructDef.name StructDef.usedNames d.withDependencies ∧
      ∀ n, n ∈ d.withDependencies.map StructDef.name ↔ ∃ t ∈ d.within, t.name = n) ∧
    ∀ p : Program, p.Reachable → ∀ entry,
      (∀ o m, ((Query.wgsl entry o).ask p).1 = .ok m →
        ∃ u, ((Query.usage entry).ask p).1 = .ok u ∧
          DeclaresStructs p.toDeclarations u (m.structs.map Wgsl.Struct.members) ∧
          ∀ name ∈ u.uniformStructs, ∃ decl, p.uniformStructs.get? name = some decl ∧
            (name, .named decl.struct.name) ∈ m.resources.map (fun r ↦ (r.name, r.type)) ∧
            decl.struct.name ∈ m.structs.map Wgsl.Struct.name) ∧
      ∀ o s, o.version = .es100 → ((Query.glsl entry o).ask p).1 = .ok s →
        ∃ u, ((Query.usage entry).ask p).1 = .ok u ∧
          DeclaresStructs p.toDeclarations u (s.uniforms.filterMap Glsl.Global.struct?) ∧
          ∀ name ∈ u.uniformStructs, ∃ decl, p.uniformStructs.get? name = some decl ∧
            .uniform (.named decl.struct.name) name ∈ s.uniforms ∧
            decl.struct.name ∈ (s.uniforms.filterMap Glsl.Global.struct?).map Prod.fst := by
  refine ⟨fun d ↦ ⟨d.inOrder_withDependencies, fun n ↦ d.mem_names_withDependencies⟩, ?_⟩
  intro p hp entry
  constructor
  · intro o m hm
    rw [(Query.answers_wgsl entry o).ask_eq] at hm
    obtain ⟨e, he, hemit⟩ := bind_eq_ok.mp hm
    obtain ⟨hdecls, -, husage, -⟩ := hp.emission he
    have hdeclared := hp.sound.declared entry e.usage husage
    rw [← hdecls] at hdeclared ⊢
    obtain ⟨hstructs, hresources, -, -⟩ := Wgsl.emit_eq_ok hemit
    have hdeclares := Wgsl.declaresStructs hstructs
    refine ⟨e.usage, ((Query.answers_usage entry).ask_eq p).trans husage, hdeclares, ?_⟩
    intro name hname
    obtain ⟨decl, hdecl⟩ := Table.exists_get? (hdeclared.uniformStructs name hname)
    refine ⟨decl, hdecl, Wgsl.mem_resources_of_struct hresources hdeclared hname hdecl, ?_⟩
    have hmem := hdeclares.mem_names hname hdecl
    rwa [List.map_map] at hmem
  · intro o s hv hs
    rw [(Query.answers_glsl entry o).ask_eq] at hs
    obtain ⟨e, he, hemit⟩ := bind_eq_ok.mp hs
    obtain ⟨hdecls, -, husage, -⟩ := hp.emission he
    have hdeclared := hp.sound.declared entry e.usage husage
    rw [← hdecls] at hdeclared ⊢
    have huniforms := (Glsl.parts_of_emit hemit).uniforms
    rw [hv] at huniforms
    have hdeclares := Glsl.declaresStructs huniforms
    refine ⟨e.usage, ((Query.answers_usage entry).ask_eq p).trans husage, hdeclares, ?_⟩
    intro name hname
    obtain ⟨decl, hdecl⟩ := Table.exists_get? (hdeclared.uniformStructs name hname)
    refine ⟨decl, hdecl, ?_, hdeclares.mem_names hname hdecl⟩
    rcases Glsl.mem_uniforms_of_struct huniforms hdeclared hname hdecl with ⟨-, hmem⟩ | ⟨hv, -⟩
    · exact hmem
    · cases hv

/-- Two struct uniforms that share a nested struct, which one of them also nests further down. -/
def orchard : List Action :=
  let leaf := StructDef.mk "Leaf" [.value "area" .float]
  let twig := StructDef.mk "Twig" [.nested "leaf" leaf none]
  let area (object : Expr) : Expr := .field (.field object "leaf") "area"
  let tree := StructDef.mk "Tree" [.nested "twig" twig none, .nested "leaf" leaf none]
  [.uniformStruct "tree" tree ⟨0, none⟩,
    .uniformStruct "bush" (.mk "Bush" [.nested "leaf" leaf none]) ⟨0, none⟩,
    .entry "fs" .fragment (Recorder.leave ⟨.ofPrim (.vector .float .four),
      .call (.construct (.vector .float .four))
        [.binary .add (area (.var (.uniformStruct "tree")))
          (area (.var (.uniformStruct "bush")))]⟩)]

theorem structs_declared_in_order_orchard :
    (∃ m u, ((Query.wgsl "fs" .default).ask (Action.run orchard)).1 = .ok m ∧
      m.structs.map Wgsl.Struct.name = ["Leaf", "Twig", "Tree", "Bush"] ∧
      DeclaresStructs (Action.run orchard).toDeclarations u (m.structs.map Wgsl.Struct.members)) ∧
    ∃ s u, ((Query.glsl "fs" { Glsl.Options.default with version := .es100 }).ask
        (Action.run orchard)).1 = .ok s ∧
      (s.uniforms.filterMap Glsl.Global.struct?).map Prod.fst = ["Leaf", "Twig", "Tree", "Bush"] ∧
      DeclaresStructs (Action.run orchard).toDeclarations u
        (s.uniforms.filterMap Glsl.Global.struct?) := by
  have hmodule : (((Query.wgsl "fs" .default).ask (Action.run orchard)).1).toOption.map
      (fun m ↦ m.structs.map Wgsl.Struct.name) = some ["Leaf", "Twig", "Tree", "Bush"] := by
    decide +kernel
  have hshader : (((Query.glsl "fs" { Glsl.Options.default with version := .es100 }).ask
      (Action.run orchard)).1).toOption.map
      (fun s ↦ (s.uniforms.filterMap Glsl.Global.struct?).map Prod.fst) =
        some ["Leaf", "Twig", "Tree", "Bush"] := by
    decide +kernel
  obtain ⟨hwgsl, hglsl⟩ := structs_declared_in_order.2 _ (Action.reachable_run orchard) "fs"
  obtain ⟨m, hm, hnames⟩ := Option.map_eq_some_iff.mp hmodule
  obtain ⟨s, hs, hnames'⟩ := Option.map_eq_some_iff.mp hshader
  obtain ⟨u, -, hdeclares, -⟩ := hwgsl .default m (eq_ok_of_toOption hm)
  obtain ⟨u', -, hdeclares', -⟩ := hglsl _ s rfl (eq_ok_of_toOption hs)
  exact ⟨⟨m, u, eq_ok_of_toOption hm, hnames, hdeclares⟩,
    s, u', eq_ok_of_toOption hs, hnames', hdeclares'⟩

end Shading
