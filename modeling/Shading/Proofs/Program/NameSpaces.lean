import Shading.Proofs.Program.Observation
import Shading.Proofs.Structs

/-!
# Names and what is declared under them

What an action declares, of which kind and under which name.  An accepted action takes a name that
was free in its name space and adds to the tables what it declares.  An action is refused if its
name is taken, or for one of three reasons of its own.
-/

namespace Shading

/-! ### Kinds of declarations -/

/-- What is declared under a name. -/
abbrev DeclKind.Decl : DeclKind → Type
  | .uniform => UniformDecl
  | .structUniform => StructUniformDecl
  | .sampler => SamplerDecl
  | .vertexAttribute => AttributeDecl
  | .varying => VaryingDecl
  | .output => OutputDecl
  | .function => Helper
  | .entryPoint => EntryPoint
  | .struct => StructDef

/-- The declarations of a kind.  Entry points are given as they were declared. -/
def Program.table (p : Program) : (kind : DeclKind) → Table kind.Decl
  | .uniform => p.uniforms
  | .structUniform => p.uniformStructs
  | .sampler => p.samplers
  | .vertexAttribute => p.attributes
  | .varying => p.varyings
  | .output => p.outputs
  | .function => p.helpers
  | .entryPoint => p.forget.entries
  | .struct => p.structs

/-- What an action declares of a kind.  A struct uniform also declares the structs in it. -/
def Action.declares : (kind : DeclKind) → Action → List (String × kind.Decl)
  | .uniform, .uniform name type binding => [(name, (⟨type, binding⟩ : UniformDecl))]
  | .structUniform, .uniformStruct name struct binding =>
    [(name, (⟨struct, binding⟩ : StructUniformDecl))]
  | .sampler, .sampler name kind binding => [(name, (⟨kind, binding⟩ : SamplerDecl))]
  | .vertexAttribute, .vertexAttribute name type location =>
    [(name, (⟨type, location⟩ : AttributeDecl))]
  | .varying, .varying name decl => [(name, decl)]
  | .output, .output name type location => [(name, (⟨type, location⟩ : OutputDecl))]
  | .function, .helper name params body =>
    match body.record with
    | .ok (result, block) => [(name, (⟨params, block, result⟩ : Helper))]
    | .error _ => []
  | .entryPoint, .entry name stage body => [(name, EntryPoint.new stage body)]
  | .struct, .uniformStruct _ struct _ => struct.withDependencies.map fun s ↦ (s.name, s)
  | _, _ => []

/-- The kind of what an action declares under a name of its own. -/
def Action.kind? : Action → Option DeclKind
  | .uniform .. => some .uniform
  | .uniformStruct .. => some .structUniform
  | .sampler .. => some .sampler
  | .vertexAttribute .. => some .vertexAttribute
  | .varying .. => some .varying
  | .output .. => some .output
  | .helper .. => some .function
  | .entry .. => some .entryPoint
  | .constant _ => none
  | .ask _ => none

theorem Action.declares_eq_nil {a : Action} {kind : DeclKind} (h : a.kind? ≠ some kind)
    (hstruct : kind ≠ .struct) : a.declares kind = [] := by
  unfold declares
  split <;> first | rfl | contradiction

theorem Action.declares_helper {name : String} {params : List Ty} {body : Recorder (Option Term)}
    {result : Option Term} {block : Block} (h : body.record = .ok (result, block)) :
    declares .function (.helper name params body) =
      [(name, (⟨params, block, result⟩ : Helper))] := by
  simp only [declares, h]

def Action.constant? : Action → Option Term
  | .constant value => some value
  | _ => none

/-- Struct definitions are filed under their names. -/
theorem Table.foldl_add_name (t : Table StructDef) (structs : List StructDef) :
    structs.foldl (fun t s ↦ t.add s.name s) t = t.addAll (structs.map fun s ↦ (s.name, s)) := by
  rw [addAll, List.foldl_map]

/-! ### Name spaces -/

/-- The spaces in which a name stands for one thing only. -/
inductive NameSpace where
  /-- Uniforms, struct uniforms and samplers. -/
  | resource
  | vertexAttribute
  | varying
  | output
  | function
  | entryPoint
  deriving DecidableEq

namespace NameSpace

def kinds : NameSpace → List DeclKind
  | resource => [.uniform, .structUniform, .sampler]
  | vertexAttribute => [.vertexAttribute]
  | varying => [.varying]
  | output => [.output]
  | function => [.function]
  | entryPoint => [.entryPoint]

/-- The kind that is reported when a name is taken. -/
def kind : NameSpace → DeclKind
  | resource => .uniform
  | vertexAttribute => .vertexAttribute
  | varying => .varying
  | output => .output
  | function => .function
  | entryPoint => .entryPoint

theorem eq_of_mem_kinds {space space' : NameSpace} {kind : DeclKind} (h : kind ∈ space.kinds)
    (h' : kind ∈ space'.kinds) : space = space' := by
  revert kind
  cases space <;> cases space' <;> decide

theorem not_mem_kinds_struct (space : NameSpace) : DeclKind.struct ∉ space.kinds := by
  cases space <;> decide

end NameSpace

/-- The names that are taken in a space. -/
def Program.names (p : Program) (space : NameSpace) : List String :=
  space.kinds.flatMap fun kind ↦ (p.table kind).keys

/-- The name that an action takes, with its space. -/
def Action.claim : Action → Option (NameSpace × String)
  | .uniform name .. => some (.resource, name)
  | .uniformStruct name .. => some (.resource, name)
  | .sampler name .. => some (.resource, name)
  | .vertexAttribute name .. => some (.vertexAttribute, name)
  | .varying name _ => some (.varying, name)
  | .output name .. => some (.output, name)
  | .helper name .. => some (.function, name)
  | .entry name .. => some (.entryPoint, name)
  | .constant _ => none
  | .ask _ => none

namespace Program

variable {p : Program} {name : String}

theorem mem_names {space : NameSpace} :
    name ∈ p.names space ↔ ∃ kind ∈ space.kinds, name ∈ (p.table kind).keys :=
  List.mem_flatMap

theorem usesUniformName_iff : p.usesUniformName name = true ↔ name ∈ p.names .resource := by
  have hnames : name ∈ p.names .resource ↔
      name ∈ p.uniforms.keys ∨ name ∈ p.uniformStructs.keys ∨ name ∈ p.samplers.keys := by
    simp only [mem_names, NameSpace.kinds, List.mem_cons, List.not_mem_nil, or_false,
      exists_eq_or_imp, exists_eq_left]
    exact Iff.rfl
  rw [hnames, usesUniformName, Bool.or_eq_true, Bool.or_eq_true, Table.contains_iff,
    Table.contains_iff, Table.contains_iff, or_assoc]

theorem contains_table_iff (p : Program) {space : NameSpace} {kind : DeclKind}
    (h : space.kinds = [kind]) (name : String) :
    (p.table kind).contains name = true ↔ name ∈ p.names space := by
  simp [mem_names, h, Table.contains_iff]

theorem contains_attributes_iff :
    p.attributes.contains name = true ↔ name ∈ p.names .vertexAttribute :=
  p.contains_table_iff (by rfl : NameSpace.kinds .vertexAttribute = [.vertexAttribute]) name

theorem contains_varyings_iff : p.varyings.contains name = true ↔ name ∈ p.names .varying :=
  p.contains_table_iff (by rfl : NameSpace.kinds .varying = [.varying]) name

theorem contains_outputs_iff : p.outputs.contains name = true ↔ name ∈ p.names .output :=
  p.contains_table_iff (by rfl : NameSpace.kinds .output = [.output]) name

theorem contains_helpers_iff : p.helpers.contains name = true ↔ name ∈ p.names .function :=
  p.contains_table_iff (by rfl : NameSpace.kinds .function = [.function]) name

theorem contains_entries_iff : p.entries.contains name = true ↔ name ∈ p.names .entryPoint := by
  have hkinds : NameSpace.kinds .entryPoint = [.entryPoint] := rfl
  rw [← p.contains_table_iff hkinds, table, forget, Table.contains_map]

end Program

namespace Action

/-! ### Accepted actions -/

variable {p q : Program} {a : Action}

theorem Accepts.table (h : Accepts p a q) (kind : DeclKind) :
    q.table kind = (p.table kind).addAll (a.declares kind) := by
  cases h with
  | uniformStruct hname hstructs =>
      cases kind with
      | struct => exact Table.foldl_add_name _ _
      | _ => rfl
  | helper hname hbody =>
      cases kind with
      | function =>
          rw [declares_helper hbody]
          rfl
      | _ => rfl
  | entry hname =>
      cases kind with
      | entryPoint => exact Table.map_add
      | _ => rfl
  | ask k =>
      have hforget := Program.forget_ask k p
      have hdecls : (k.query.ask p).2.2.forget.toDeclarations = p.forget.toDeclarations := by
        rw [hforget]
      simp only [Program.forget] at hdecls
      cases kind with
      | entryPoint => exact congrArg Program.entries hforget
      | _ =>
          simp only [Program.table, hdecls]
          rfl
  | _ => cases kind <;> rfl

theorem Accepts.constants (h : Accepts p a q) :
    q.constants.toList = p.constants.toList ++ a.constant?.toList := by
  cases h with
  | constant hroom => exact Array.toList_push
  | ask k =>
      have hforget := Program.forget_ask k p
      have hconstants : (k.query.ask p).2.2.forget.constants = p.forget.constants := by
        rw [hforget]
      simp only [Program.forget] at hconstants
      rw [hconstants]
      exact (List.append_nil _).symm
  | _ => exact (List.append_nil _).symm

theorem Accepts.room (h : Accepts p a q) (hp : p.constants.size ≤ Program.maxConstants) :
    q.constants.size ≤ Program.maxConstants := by
  have hconstants := congrArg List.length h.constants
  rw [List.length_append, Array.length_toList, Array.length_toList] at hconstants
  cases h with
  | constant hroom =>
      simp only [Array.size_push]
      omega
  | _ => exact hconstants ▸ hp

/-- An action that takes a name declares one thing under it. -/
theorem Accepts.declares_cases (h : Accepts p a q) :
    a.claim = none ∧ a.kind? = none ∨
      ∃ space name kind decl, a.claim = some (space, name) ∧ a.kind? = some kind ∧
        kind ∈ space.kinds ∧ a.declares kind = [(name, decl)] := by
  cases h with
  | uniform hname => exact .inr ⟨.resource, _, .uniform, _, rfl, rfl, by decide, rfl⟩
  | uniformStruct hname hstructs =>
      exact .inr ⟨.resource, _, .structUniform, _, rfl, rfl, by decide, rfl⟩
  | sampler hname => exact .inr ⟨.resource, _, .sampler, _, rfl, rfl, by decide, rfl⟩
  | vertexAttribute hname =>
      exact .inr ⟨.vertexAttribute, _, .vertexAttribute, _, rfl, rfl, by decide, rfl⟩
  | varying hname => exact .inr ⟨.varying, _, .varying, _, rfl, rfl, by decide, rfl⟩
  | output hname => exact .inr ⟨.output, _, .output, _, rfl, rfl, by decide, rfl⟩
  | helper hname hbody =>
      exact .inr ⟨.function, _, .function, _, rfl, rfl, by decide, declares_helper hbody⟩
  | entry hname => exact .inr ⟨.entryPoint, _, .entryPoint, _, rfl, rfl, by decide, rfl⟩
  | constant hroom => exact .inl ⟨rfl, rfl⟩
  | ask k => exact .inl ⟨rfl, rfl⟩

theorem Accepts.names_iff (h : Accepts p a q) {space : NameSpace} {name : String} :
    name ∈ q.names space ↔ name ∈ p.names space ∨ a.claim = some (space, name) := by
  have hmem : name ∈ q.names space ↔ name ∈ p.names space ∨
      ∃ kind ∈ space.kinds, name ∈ (a.declares kind).map Prod.fst := by
    simp only [Program.mem_names, h.table, Table.mem_keys_addAll, and_or_left, exists_or]
  rw [hmem]
  apply or_congr_right
  rcases h.declares_cases with ⟨hclaim, hkind⟩ |
    ⟨space', name', kind', decl, hclaim, hkind, hin, hone⟩
  · rw [hclaim]
    constructor
    · rintro ⟨kind, hmem, hname⟩
      have hstruct : kind ≠ .struct := fun heq ↦ space.not_mem_kinds_struct (heq ▸ hmem)
      rw [declares_eq_nil (by simp [hkind]) hstruct] at hname
      cases hname
    · intro hclaim
      cases hclaim
  · rw [hclaim]
    constructor
    · rintro ⟨kind, hmem, hname⟩
      have hstruct : kind ≠ .struct := fun heq ↦ space.not_mem_kinds_struct (heq ▸ hmem)
      by_cases heq : kind' = kind
      · subst heq
        rw [hone] at hname
        rw [NameSpace.eq_of_mem_kinds hin hmem, List.mem_singleton.mp hname]
      · rw [declares_eq_nil (by simp [hkind, heq]) hstruct] at hname
        cases hname
    · intro hclaim
      cases hclaim
      refine ⟨kind', hin, ?_⟩
      rw [hone]
      exact List.mem_singleton.mpr rfl

/-! ### Refused actions -/

/-- Why an action is refused, with the error. -/
inductive Refuses (p : Program) : Action → Error → Prop
  | taken {a : Action} {space : NameSpace} {name : String} (hclaim : a.claim = some (space, name))
      (hname : name ∈ p.names space) : Refuses p a (.duplicate space.kind name)
  /-- The first definition that differs from a known one is named. -/
  | conflict {name : String} {struct s : StructDef} {binding : Binding}
      (hname : name ∉ p.names .resource)
      (hs : struct.withDependencies.find? p.conflicts = some s) :
      Refuses p (.uniformStruct name struct binding) (.duplicate .struct s.name)
  | full {value : Term} (hfull : Program.maxConstants ≤ p.constants.size) :
      Refuses p (.constant value) (.tooManyConstants p.constants.size)
  | rejected {name : String} {params : List Ty} {body : Recorder (Option Term)} {e : Error}
      (hname : name ∉ p.names .function) (hbody : body.record = .error e) :
      Refuses p (.helper name params body) e

theorem make_of_taken {space : NameSpace} {name : String} (hclaim : a.claim = some (space, name))
    (hname : name ∈ p.names space) :
    a.change.make p = (.error (.duplicate space.kind name), p) := by
  cases a <;> cases hclaim
  case uniform type binding =>
    exact (Program.make_declare ..).trans (if_pos (Program.usesUniformName_iff.mpr hname))
  case uniformStruct struct binding =>
    exact (Program.make_addUniformStruct ..).trans (if_pos (Program.usesUniformName_iff.mpr hname))
  case sampler kind binding =>
    exact (Program.make_declare ..).trans (if_pos (Program.usesUniformName_iff.mpr hname))
  case vertexAttribute type location =>
    exact (Program.make_declare ..).trans (if_pos (Program.contains_attributes_iff.mpr hname))
  case varying decl =>
    exact (Program.make_declare ..).trans (if_pos (Program.contains_varyings_iff.mpr hname))
  case output type location =>
    exact (Program.make_declare ..).trans (if_pos (Program.contains_outputs_iff.mpr hname))
  case helper params body =>
    exact (Program.make_addHelper ..).trans (if_pos (Program.contains_helpers_iff.mpr hname))
  case entry stage body =>
    exact (Program.make_declare ..).trans (if_pos (Program.contains_entries_iff.mpr hname))

/-- A refused action fails with the error and leaves the program as it was. -/
theorem make_of_refuses {e : Error} (h : Refuses p a e) : a.change.make p = (.error e, p) := by
  cases h with
  | taken hclaim hname => exact make_of_taken hclaim hname
  | conflict hname hs =>
      rw [← Program.usesUniformName_iff] at hname
      rw [change, Program.make_addUniformStruct, if_neg hname, hs]
  | full hfull => exact (make_constant ..).trans (if_neg (Nat.not_lt.mpr hfull))
  | rejected hname hbody =>
      rw [← Program.contains_helpers_iff] at hname
      rw [change, Program.make_addHelper, if_neg hname, hbody]

theorem accepts_or_refuses (p : Program) (a : Action) :
    (∃ q, Accepts p a q) ∨ ∃ e, Refuses p a e := by
  by_cases htaken : ∃ space name, a.claim = some (space, name) ∧ name ∈ p.names space
  · obtain ⟨space, name, hclaim, hname⟩ := htaken
    exact .inr ⟨_, .taken hclaim hname⟩
  · have hfree : ∀ {space name}, a.claim = some (space, name) → name ∉ p.names space :=
      fun hclaim hname ↦ htaken ⟨_, _, hclaim, hname⟩
    cases a with
    | uniform name type binding =>
        exact .inl ⟨_, .uniform (mt Program.usesUniformName_iff.mp (hfree rfl))⟩
    | uniformStruct name struct binding =>
        cases hfind : struct.withDependencies.find? p.conflicts with
        | none =>
            exact .inl ⟨_, .uniformStruct (mt Program.usesUniformName_iff.mp (hfree rfl))
              (List.find?_eq_none.mp hfind)⟩
        | some s => exact .inr ⟨_, .conflict (hfree rfl) hfind⟩
    | vertexAttribute name type location =>
        exact .inl ⟨_, .vertexAttribute (mt Program.contains_attributes_iff.mp (hfree rfl))⟩
    | varying name decl =>
        exact .inl ⟨_, .varying (mt Program.contains_varyings_iff.mp (hfree rfl))⟩
    | sampler name kind binding =>
        exact .inl ⟨_, .sampler (mt Program.usesUniformName_iff.mp (hfree rfl))⟩
    | output name type location =>
        exact .inl ⟨_, .output (mt Program.contains_outputs_iff.mp (hfree rfl))⟩
    | constant value =>
        by_cases hroom : p.constants.size < Program.maxConstants
        · exact .inl ⟨_, .constant hroom⟩
        · exact .inr ⟨_, .full (Nat.not_lt.mp hroom)⟩
    | helper name params body =>
        cases hbody : body.record with
        | ok r => exact .inl ⟨_, .helper (mt Program.contains_helpers_iff.mp (hfree rfl)) hbody⟩
        | error e => exact .inr ⟨_, .rejected (hfree rfl) hbody⟩
    | entry name stage body =>
        exact .inl ⟨_, .entry (mt Program.contains_entries_iff.mp (hfree rfl))⟩
    | ask k => exact .inl ⟨_, .ask k⟩

/-- Only free names are taken. -/
theorem Accepts.free (h : Accepts p a q) {space : NameSpace} {name : String}
    (hclaim : a.claim = some (space, name)) : name ∉ p.names space := by
  intro hname
  cases (make_of_taken hclaim hname).symm.trans (make_of_accepts h)

theorem make_eq_error_iff {e : Error} : (a.change.make p).1 = .error e ↔ Refuses p a e := by
  constructor
  · intro h
    rcases accepts_or_refuses p a with ⟨q, hq⟩ | ⟨e', he'⟩
    · rw [make_of_accepts hq] at h
      cases h
    · rw [make_of_refuses he'] at h
      cases h
      exact he'
  · intro h
    rw [make_of_refuses h]

end Action

end Shading
