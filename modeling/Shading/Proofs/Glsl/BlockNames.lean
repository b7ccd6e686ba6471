import Shading.Proofs.Emission.Structs
import Shading.Proofs.Program.Observation

/-!
# Names of uniform blocks

Blocks are named one after the other.  The first choice for a block is the name of its struct, or
the names of its struct and its instance if the former is in use, and underscores are added to it as
long as it is taken.  There are more ways to add underscores than names that are taken, so this
comes to an end.  The names of structs and blocks in a shader are all different.
-/

namespace Shading.Glsl

/-! ### Underscores -/

@[simp] theorem padded_zero (name : String) : padded name 0 = name := by
  simp [padded]

theorem padded_succ (name : String) (n : Nat) : padded name (n + 1) = padded (name ++ "_") n := by
  apply String.toList_inj.mp
  simp [padded, List.replicate_succ]

theorem padded_injective (name : String) : Function.Injective (padded name) := by
  intro m n h
  have hlist := congrArg String.toList h
  simpa [padded] using hlist

/-- Underscores are added one by one as long as the name is taken. -/
inductive PadsTo (taken : List String) : String → String → Prop
  | done {name : String} (h : name ∉ taken) : PadsTo taken name name
  | more {name result : String} (h : name ∈ taken) (hrest : PadsTo taken (name ++ "_") result) :
      PadsTo taken name result

namespace PadsTo

variable {taken : List String} {name result : String}

theorem notMem (h : PadsTo taken name result) : result ∉ taken := by
  induction h with
  | done h => exact h
  | more _ _ ih => exact ih

theorem eq_of_notMem (h : PadsTo taken name result) (hname : name ∉ taken) : result = name := by
  cases h with
  | done => rfl
  | more htaken => exact (hname htaken).elim

theorem exists_padded (h : PadsTo taken name result) : ∃ n, result = padded name n := by
  induction h with
  | @done name _ => exact ⟨0, (padded_zero name).symm⟩
  | @more name result _ _ ih =>
      obtain ⟨n, rfl⟩ := ih
      exact ⟨n + 1, (padded_succ name n).symm⟩

theorem of_padded {n : Nat} (hfree : padded name n ∉ taken)
    (htaken : ∀ m < n, padded name m ∈ taken) : PadsTo taken name (padded name n) := by
  induction n generalizing name with
  | zero =>
      rw [padded_zero] at hfree ⊢
      exact .done hfree
  | succ n ih =>
      rw [padded_succ] at hfree ⊢
      refine .more ?_ (ih hfree ?_)
      · have hzero := htaken 0 n.succ_pos
        rwa [padded_zero] at hzero
      · intro m hm
        have hsucc := htaken (m + 1) (Nat.succ_lt_succ hm)
        rwa [padded_succ] at hsucc

end PadsTo

/-- Adding underscores comes to an end, since only finitely many names are taken. -/
theorem padsTo_firstFree (taken : List String) (name : String) :
    PadsTo taken name (firstFree taken name) := by
  obtain ⟨n, hn, hfree, hbelow⟩ := Layout.exists_find?_free (padded_injective name) taken
  have hfirst : firstFree taken name = padded name n := by
    rw [firstFree, List.find?_map]
    exact congrArg (fun m ↦ (Option.map (padded name) m).getD name) hn
  rw [hfirst]
  exact .of_padded hfree hbelow

/-! ### One block after the other -/

/-- The first choice for the name of a block. -/
def firstChoice (structs taken : List String) (inst struct : String) : String :=
  if 1 < structs.count struct ∨ struct ∈ taken then struct ++ "_" ++ inst else struct

theorem padsTo_blockName (structs taken : List String) (inst struct : String) :
    PadsTo taken (firstChoice structs taken inst struct) (blockName structs taken inst struct) :=
  padsTo_firstFree taken _

theorem map_fst_nameBlocks (structs taken : List String) (blocks : List (String × String)) :
    (nameBlocks structs taken blocks).map Prod.fst = blocks.map Prod.fst := by
  induction blocks generalizing taken with
  | nil => rfl
  | cons b rest ih => exact congrArg (b.1 :: ·) (ih _)

/-- Later blocks are named with the names of the earlier ones taken. -/
theorem nameBlocks_append (structs taken : List String) (blocks more : List (String × String)) :
    nameBlocks structs taken (blocks ++ more) = nameBlocks structs taken blocks ++
      nameBlocks structs (taken ++ (nameBlocks structs taken blocks).map Prod.snd) more := by
  induction blocks generalizing taken with
  | nil => simp [nameBlocks]
  | cons b rest ih =>
      simp only [List.cons_append, nameBlocks, ih, List.map_cons, List.append_assoc,
        List.nil_append]

/-- No name is given twice, and none that was taken at the start. -/
theorem nodup_nameBlocks (structs taken : List String) (blocks : List (String × String)) :
    ((nameBlocks structs taken blocks).map Prod.snd).Nodup ∧
      ∀ name ∈ (nameBlocks structs taken blocks).map Prod.snd, name ∉ taken := by
  induction blocks generalizing taken with
  | nil => exact ⟨List.nodup_nil, fun name hname ↦ by cases hname⟩
  | cons b rest ih =>
      have hfree := (padsTo_blockName structs taken b.1 b.2).notMem
      obtain ⟨hnodup, hlater⟩ := ih (taken ++ [blockName structs taken b.1 b.2])
      rw [nameBlocks, List.map_cons, List.nodup_cons]
      refine ⟨⟨?_, hnodup⟩, ?_⟩
      · intro hmem
        exact hlater _ hmem (List.mem_append_right _ List.mem_cons_self)
      · intro name hname
        rcases List.mem_cons.mp hname with rfl | hname
        · exact hfree
        · exact fun htaken ↦ hlater name hname (List.mem_append_left _ htaken)

/-- A struct name that is neither that of another block, nor that of a declared struct, nor the name
of an earlier block. -/
def Unused (declared earlier others : List String) (struct : String) : Prop :=
  struct ∉ others ∧ struct ∉ declared ∧ struct ∉ earlier

theorem firstChoice_of_split (declared earlier : List String)
    (before after : List (String × String)) (inst struct : String) :
    let structs := (before ++ (inst, struct) :: after).map Prod.snd
    let others := (before ++ after).map Prod.snd
    (Unused declared earlier others struct →
      firstChoice structs (declared ++ earlier) inst struct = struct) ∧
    (¬ Unused declared earlier others struct →
      firstChoice structs (declared ++ earlier) inst struct = struct ++ "_" ++ inst) := by
  dsimp only
  have hcount : 1 < ((before ++ (inst, struct) :: after).map Prod.snd).count struct ↔
      struct ∈ (before ++ after).map Prod.snd := by
    rw [← List.one_le_count_iff, List.map_append, List.map_append, List.map_cons,
      List.count_append, List.count_append, List.count_cons_self]
    omega
  have hused : (1 < ((before ++ (inst, struct) :: after).map Prod.snd).count struct ∨
      struct ∈ declared ++ earlier) ↔
        ¬ Unused declared earlier ((before ++ after).map Prod.snd) struct := by
    rw [hcount, List.mem_append, Unused]
    tauto
  refine ⟨fun h ↦ if_neg fun hc ↦ hused.mp hc h, fun h ↦ if_pos (hused.mpr h)⟩

/-- A block is named after its struct if nothing else is, and else after its struct and its
instance.  The names of the earlier blocks and of the declared structs are taken. -/
theorem exists_blockName_of_split (declared : List String) (before after : List (String × String))
    (inst struct : String) :
    ∃ first name rest,
      blockNames declared (before ++ (inst, struct) :: after) = first ++ (inst, name) :: rest ∧
      first.map Prod.fst = before.map Prod.fst ∧
      (Unused declared (first.map Prod.snd) ((before ++ after).map Prod.snd) struct →
        PadsTo (declared ++ first.map Prod.snd) struct name) ∧
      (¬ Unused declared (first.map Prod.snd) ((before ++ after).map Prod.snd) struct →
        PadsTo (declared ++ first.map Prod.snd) (struct ++ "_" ++ inst) name) := by
  let structs := (before ++ (inst, struct) :: after).map Prod.snd
  let first := nameBlocks structs declared before
  have hpads := padsTo_blockName structs (declared ++ first.map Prod.snd) inst struct
  obtain ⟨hown, hjoined⟩ :=
    firstChoice_of_split declared (first.map Prod.snd) before after inst struct
  refine ⟨first, _, _, nameBlocks_append structs declared before _, map_fst_nameBlocks _ _ _,
    ?_, ?_⟩
  · intro hunused
    rwa [hown hunused] at hpads
  · intro hused
    rwa [hjoined hused] at hpads

/-! ### Structs and blocks of a shader -/

/-- Structs and blocks share a name space. -/
def Global.typeName? : Global → Option String
  | .struct n _ => some n
  | .block n _ _ => some n
  | _ => none

variable {e : Emission} {v : Version} {s : Shader}

/-- The name of the block of a handle, if it has one. -/
def blockOf (v : Version) (blocks : List (String × String)) : Handle → List String
  | .uniformStruct n =>
    match v with
    | .es100 => []
    | .es300 => (blocks.lookup n).toList
  | _ => []

theorem typeNames_bindingGlobal {blocks : List (String × String)} {a : Handle}
    (hnamed : ∀ n, a = .uniformStruct n → ∃ b, blocks.lookup n = some b) {gs : List Global}
    (h : bindingGlobal e v blocks a = .ok gs) :
    gs.filterMap Global.typeName? = blockOf v blocks a := by
  cases a with
  | uniform name =>
      obtain ⟨decl, -, h⟩ := bind_eq_ok.mp h
      obtain ⟨type, -, h⟩ := bind_eq_ok.mp h
      cases h
      rfl
  | uniformStruct name =>
      obtain ⟨b, hb⟩ := hnamed name rfl
      obtain ⟨decl, -, h⟩ := bind_eq_ok.mp h
      cases v with
      | es100 =>
          cases h
          rfl
      | es300 =>
          obtain ⟨fields, -, h⟩ := bind_eq_ok.mp h
          cases h
          rw [blockOf, hb]
          rfl
  | sampler name =>
      obtain ⟨decl, -, h⟩ := bind_eq_ok.mp h
      obtain ⟨type, -, h⟩ := bind_eq_ok.mp h
      cases h
      rfl
  | _ =>
      cases h
      rfl

/-- Blocks of different handles have names of their own, none of which is declared. -/
theorem nodup_blockOf {declared : List String} (hdeclared : declared.Nodup)
    (blocks : List (String × String)) {handles : List Handle} (hhandles : handles.Nodup)
    (v : Version) :
    (declared ++ handles.flatMap (blockOf v (blockNames declared blocks))).Nodup := by
  obtain ⟨hnodup, hfree⟩ := nodup_nameBlocks (blocks.map Prod.snd) declared blocks
  -- A block name tells which handle it is the name of.
  have hmem : ∀ {a b}, b ∈ blockOf v (blockNames declared blocks) a →
      ∃ n, a = .uniformStruct n ∧ (n, b) ∈ blockNames declared blocks := by
    intro a b hb
    cases a with
    | uniformStruct n =>
        cases v with
        | es100 => cases hb
        | es300 => exact ⟨n, rfl, mem_of_lookup (Option.mem_toList.mp hb)⟩
    | _ => cases hb
  refine List.nodup_append'.mpr ⟨hdeclared, List.nodup_flatMap.mpr ⟨?_, ?_⟩, ?_⟩
  · intro a _
    cases a with
    | uniformStruct n =>
        cases v with
        | es100 => exact List.nodup_nil
        | es300 =>
            rw [blockOf]
            cases (blockNames declared blocks).lookup n <;> simp
    | _ => exact List.nodup_nil
  · apply hhandles.imp
    intro a a' hne b hb hb'
    obtain ⟨n, rfl, hn⟩ := hmem hb
    obtain ⟨n', rfl, hn'⟩ := hmem hb'
    have heq : (n, b) = (n', b) := List.inj_on_of_nodup_map hnodup hn hn' rfl
    exact hne (congrArg _ (Prod.mk.inj heq).1)
  · intro b hb hmemb
    obtain ⟨a, -, hmemb⟩ := List.mem_flatMap.mp hmemb
    obtain ⟨n, -, hn⟩ := hmem hmemb
    exact hfree b (List.mem_map.mpr ⟨(n, b), hn, rfl⟩) hb

theorem fst_usedStructs {used : List (String × StructDef)} (h : usedStructs e = .ok used) :
    used.map Prod.fst = e.usage.uniformStructs.toList := by
  have hkey : used.map Prod.fst = e.usage.uniformStructs.toList.map id := by
    apply map_mapM h
    intro n _ u hu
    obtain ⟨decl, -, hu⟩ := bind_eq_ok.mp hu
    cases hu
    rfl
  rw [hkey, List.map_id]

/-- All structs and blocks of a shader have different names. -/
theorem nodup_typeNames (h : uniforms e v = .ok s.uniforms) (hu : e.usage.Declared e.decls) :
    (s.uniforms.filterMap Global.typeName?).Nodup := by
  obtain ⟨used, hused, h⟩ := bind_eq_ok.mp h
  obtain ⟨declared, hdeclared, h⟩ := bind_eq_ok.mp h
  obtain ⟨bindings, hbindings, h⟩ := bind_eq_ok.mp h
  let structs := (declaredStructs v used).map StructDef.name
  let blocks := used.map fun u ↦ (u.1, u.2.name)
  have hstructs : structs.Nodup := by
    have hgathers := StructDef.gathers_merge [] (used.flatMap fun u ↦ neededStructs v u.2)
    rw [← declaredStructs_eq] at hgathers
    exact hgathers.nodup List.nodup_nil
  have hinstances : (blockNames structs blocks).map Prod.fst = e.usage.uniformStructs.toList := by
    rw [blockNames, map_fst_nameBlocks, ← fst_usedStructs hused, List.map_map]
    rfl
  have hnamed : ∀ a ∈ e.usage.bindings.toList, ∀ n, a = .uniformStruct n →
      ∃ b, (blockNames structs blocks).lookup n = some b := by
    rintro a ha n rfl
    have hn : n ∈ (blockNames structs blocks).map Prod.fst := by
      rw [hinstances]
      rcases (hu.bindings _).mp ha with ⟨m, -, hm⟩ | ⟨m, hm, heq⟩ | ⟨m, -, hm⟩
      · cases hm
      · cases heq
        exact hm
      · cases hm
    obtain ⟨⟨m, b⟩, hmem, rfl⟩ := List.mem_map.mp hn
    exact ⟨b, lookup_of_mem (hinstances ▸ e.usage.uniformStructs.nodup) hmem⟩
  have hstruct : ∀ d g, structGlobal v d = .ok g → g.typeName? = some d.name := by
    intro d g hg
    obtain ⟨fields, -, hg⟩ := bind_eq_ok.mp hg
    cases hg
    rfl
  have htypes : s.uniforms.filterMap Global.typeName? = structs ++
      e.usage.bindings.toList.flatMap (blockOf v (blockNames structs blocks)) := by
    rw [← Except.ok.inj h, List.filterMap_append, List.filterMap_append,
      filterMap_mapM hdeclared fun d _ ↦ hstruct d,
      filterMap_mapM_flatten hbindings fun a ha _ ↦ typeNames_bindingGlobal (hnamed a ha),
      List.filterMap_eq_map']
    split <;> rfl
  rw [htypes]
  exact nodup_blockOf hstructs blocks e.usage.bindings.nodup v

/-- Every instance gets a block name.  Block names differ from each other and from the names of
declared structs.  A block has the name of its struct if no other block has the same struct, no
declared struct that name and no earlier block either; otherwise its name is made of the names of
its struct and its instance and of underscores.  So all structs and blocks of a shader have
different names. -/
theorem block_names_unique :
    (∀ (declared : List String) (blocks : List (String × String)), (blocks.map Prod.fst).Nodup →
      (blockNames declared blocks).map Prod.fst = blocks.map Prod.fst ∧
      ((blockNames declared blocks).map Prod.snd).Nodup ∧
      (∀ name ∈ (blockNames declared blocks).map Prod.snd, name ∉ declared) ∧
      ∀ before inst struct after, blocks = before ++ (inst, struct) :: after →
        ∃ first name rest, blockNames declared blocks = first ++ (inst, name) :: rest ∧
          first.map Prod.fst = before.map Prod.fst ∧
          (blockNames declared blocks).lookup inst = some name ∧
          (Unused declared (first.map Prod.snd) ((before ++ after).map Prod.snd) struct →
            PadsTo (declared ++ first.map Prod.snd) struct name ∧ name = struct) ∧
          (¬ Unused declared (first.map Prod.snd) ((before ++ after).map Prod.snd) struct →
            PadsTo (declared ++ first.map Prod.snd) (struct ++ "_" ++ inst) name ∧
              ∃ n, name = padded (struct ++ "_" ++ inst) n)) ∧
    ∀ (p : Program), p.Reachable → ∀ entry o s, ((Query.glsl entry o).ask p).1 = .ok s →
      (s.uniforms.filterMap Global.typeName?).Nodup := by
  constructor
  · intro declared blocks hinstances
    obtain ⟨hnodup, hfree⟩ := nodup_nameBlocks (blocks.map Prod.snd) declared blocks
    have hfst := map_fst_nameBlocks (blocks.map Prod.snd) declared blocks
    refine ⟨hfst, hnodup, hfree, ?_⟩
    rintro before inst struct after rfl
    obtain ⟨first, name, rest, hsplit, hfirst, hown, hjoined⟩ :=
      exists_blockName_of_split declared before after inst struct
    refine ⟨first, name, rest, hsplit, hfirst, ?_, ?_, ?_⟩
    · apply lookup_of_mem (hfst.symm ▸ hinstances)
      exact hsplit ▸ List.mem_append_right _ List.mem_cons_self
    · intro hunused
      refine ⟨hown hunused, (hown hunused).eq_of_notMem ?_⟩
      rw [List.mem_append, not_or]
      exact hunused.2
    · intro hused
      exact ⟨hjoined hused, (hjoined hused).exists_padded⟩
  · intro p hp entry o s hs
    rw [(Query.answers_glsl entry o).ask_eq] at hs
    obtain ⟨e, he, hemit⟩ := bind_eq_ok.mp hs
    obtain ⟨hdecls, -, husage, -⟩ := hp.emission he
    have hdeclared := hp.sound.declared entry e.usage husage
    rw [← hdecls] at hdeclared
    exact nodup_typeNames (parts_of_emit hemit).uniforms hdeclared

/-- A struct that is nested in the struct of one block and is the struct of another one. -/
def lantern : List Action :=
  let light := StructDef.mk "Light" [.value "power" .float]
  let power (object : Expr) : Expr := .field object "power"
  [.uniformStruct "scene" (.mk "Scene" [.nested "sun" light none]) ⟨0, none⟩,
    .uniformStruct "lamp" light ⟨0, none⟩,
    .entry "fs" .fragment (Recorder.leave ⟨.ofPrim (.vector .float .four),
      .call (.construct (.vector .float .four))
        [.binary .add (power (.field (.var (.uniformStruct "scene")) "sun"))
          (power (.var (.uniformStruct "lamp")))]⟩)]

/-- Two blocks share a struct, and the name with the instance of the first is already that of
another block. -/
theorem block_names_unique_shared :
    blockNames ["Light"] [("x", "Fog_b"), ("b", "Fog"), ("c", "Fog"), ("a", "Light")] =
      [("x", "Fog_b"), ("b", "Fog_b_"), ("c", "Fog_c"), ("a", "Light_a")] ∧
    PadsTo ["Light", "Fog_b"] "Fog_b" "Fog_b_" ∧
    ∃ s, ((Query.glsl "fs" .default).ask (Action.run lantern)).1 = .ok s ∧
      s.uniforms.filterMap Global.typeName? = ["Light", "Scene", "Light_lamp"] ∧
      (s.uniforms.filterMap Global.typeName?).Nodup := by
  have hnames : blockNames ["Light"] [("x", "Fog_b"), ("b", "Fog"), ("c", "Fog"), ("a", "Light")] =
      [("x", "Fog_b"), ("b", "Fog_b_"), ("c", "Fog_c"), ("a", "Light_a")] := by decide +kernel
  have hshader : (((Query.glsl "fs" .default).ask (Action.run lantern)).1).toOption.map
      (fun s ↦ s.uniforms.filterMap Global.typeName?) = some ["Light", "Scene", "Light_lamp"] := by
    decide +kernel
  obtain ⟨s, hs, htypes⟩ := Option.map_eq_some_iff.mp hshader
  obtain ⟨hblocks, hemitted⟩ := block_names_unique
  obtain ⟨-, -, -, hchosen⟩ := hblocks ["Light"]
    [("x", "Fog_b"), ("b", "Fog"), ("c", "Fog"), ("a", "Light")] (by decide)
  obtain ⟨first, name, rest, hsplit, hfirst, -, -, hjoined⟩ :=
    hchosen [("x", "Fog_b")] "b" "Fog" [("c", "Fog"), ("a", "Light")] rfl
  obtain ⟨b, rfl⟩ := List.length_eq_one_iff.mp (by simpa using congrArg List.length hfirst)
  rw [hnames] at hsplit
  cases hsplit
  refine ⟨hnames, (hjoined fun hunused ↦ hunused.1 (by decide)).1, s, eq_ok_of_toOption hs, htypes,
    ?_⟩
  exact hemitted _ (Action.reachable_run lantern) "fs" .default s (eq_ok_of_toOption hs)

end Shading.Glsl
