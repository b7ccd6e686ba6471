import Shading.Program.Declare
import Shading.Proofs.Program.Answers

/-!
# Accepted and refused actions

What an author does with a program: declarations, each of them accepted or refused with an error,
and questions.  What an accepted action does, and under which condition it is accepted, is said here
once for every kind of action.  A refused action leaves the program as it was, since a change adds
nothing before its last check has passed.
-/

namespace Shading

/-! ### Changes -/

theorem Change.make_bind {α β : Type} (c : Change α) (k : α → Change β) (p : Program) :
    (c >>= k).make p =
      match c.make p with
      | (.ok a, q) => (k a).make q
      | (.error e, q) => (.error e, q) := by
  change (ExceptT.bindCont k (c.make p).1).run (c.make p).2 = _
  rcases c.make p with ⟨_ | _, q⟩
  · rfl
  · rfl

namespace Program

variable {p : Program}

theorem make_checkName_bind (kind : DeclKind) (name : String) (taken : Program → Bool)
    (k : Unit → Change Unit) :
    (checkName kind name taken >>= k).make p =
      if taken p then (.error (.duplicate kind name), p) else (k ()).make p := by
  have hcheck : (checkName kind name taken).make p =
      (if taken p then throw (.duplicate kind name) else pure () : Change Unit).make p := rfl
  rw [Change.make_bind, hcheck]
  cases taken p <;> rfl

theorem make_forM_checkStruct (structs : List StructDef) :
    (structs.forM checkStruct).make p =
      (match structs.find? p.conflicts with
        | some s => .error (.duplicate .struct s.name)
        | none => .ok (), p) := by
  induction structs with
  | nil => rfl
  | cons s structs ih =>
      have hcheck : (checkStruct s).make p =
          (if p.conflicts s then throw (.duplicate .struct s.name) else pure () :
            Change Unit).make p := rfl
      rw [List.forM, Change.make_bind, hcheck, List.find?_cons]
      cases p.conflicts s with
      | true => rfl
      | false => exact ih

theorem make_forM_keepStruct (structs : List StructDef) (p : Program) :
    (structs.forM keepStruct).make p =
      (.ok (), { p with structs := structs.foldl (fun t s ↦ t.add s.name s) p.structs }) := by
  induction structs generalizing p with
  | nil => rfl
  | cons s structs ih =>
      rw [List.forM, Change.make_bind]
      exact ih _

theorem make_declare (kind : DeclKind) (name : String) (taken : Program → Bool)
    (add : Program → Program) :
    (declare kind name taken add).make p =
      if taken p then (.error (.duplicate kind name), p) else (.ok (), add p) :=
  make_checkName_bind kind name taken _

theorem make_addUniformStruct (name : String) (struct : StructDef) (binding : Binding) :
    (addUniformStruct name struct binding).make p =
      if p.usesUniformName name then (.error (.duplicate .uniform name), p)
      else
        match struct.withDependencies.find? p.conflicts with
        | some s => (.error (.duplicate .struct s.name), p)
        | none =>
          (.ok (), { p with
            structs := struct.withDependencies.foldl (fun t s ↦ t.add s.name s) p.structs
            uniformStructs := p.uniformStructs.add name ⟨struct, binding⟩ }) := by
  rw [addUniformStruct, make_checkName_bind, Change.make_bind, make_forM_checkStruct]
  cases struct.withDependencies.find? p.conflicts with
  | some s => rfl
  | none =>
      dsimp only
      rw [Change.make_bind, make_forM_keepStruct]
      rfl

theorem make_addConstant (value : Term) :
    (addConstant value).make p =
      if p.constants.size < maxConstants then
        (.ok (.ofHandle value.type (.constant p.constants.size)),
          { p with constants := p.constants.push value })
      else (.error (.tooManyConstants p.constants.size), p) := by
  change (do
    unless p.constants.size < maxConstants do throw (.tooManyConstants p.constants.size)
    modify fun p ↦ { p with constants := p.constants.push value }
    return .ofHandle value.type (.constant p.constants.size) : Change Term).make p = _
  split
  · rfl
  · rfl

theorem make_addHelper (name : String) (params : List Ty) (body : Recorder (Option Term)) :
    (addHelper name params body).make p =
      if p.helpers.contains name then (.error (.duplicate .function name), p)
      else
        match body.record with
        | .ok (result, block) =>
          (.ok (), { p with helpers := p.helpers.add name ⟨params, block, result⟩ })
        | .error e => (.error e, p) := by
  rw [addHelper, make_checkName_bind]
  cases body.record <;> rfl

end Program

/-! ### Actions -/

/-- What an author can do with a program. -/
inductive Action where
  | uniform (name : String) (type : Ty) (binding : Binding)
  | uniformStruct (name : String) (struct : StructDef) (binding : Binding)
  | vertexAttribute (name : String) (type : Ty) (location : Option UInt32)
  | varying (name : String) (decl : VaryingDecl)
  | sampler (name : String) (kind : SamplerKind) (binding : Binding)
  | output (name : String) (type : Ty) (location : Option UInt32)
  | constant (value : Term)
  | helper (name : String) (params : List Ty) (body : Recorder (Option Term))
  | entry (name : String) (stage : Stage) (body : Recorder Unit)
  | ask (k : Question)

namespace Action

/-- The change that an action makes.  A question changes what is remembered, even if it fails. -/
def change : Action → Change Unit
  | uniform name type binding => Program.addUniform name type binding
  | uniformStruct name struct binding => Program.addUniformStruct name struct binding
  | vertexAttribute name type location => Program.addAttribute name type location
  | varying name decl => Program.addVarying name decl
  | sampler name kind binding => Program.addSampler name kind binding
  | output name type location => Program.addOutput name type location
  | constant value => Program.addConstant value >>= fun _ ↦ pure ()
  | helper name params body => Program.addHelper name params body
  | entry name stage body => Program.addEntry name stage body
  | ask k => modify fun p ↦ (k.query.ask p).2.2

/-- What comes of an action: the program after it, or the error with which it is refused. -/
def outcome (p : Program) (a : Action) : Except Error Program :=
  (a.change.make p).1.map fun _ ↦ (a.change.make p).2

/-- The program after an action, be it accepted or refused. -/
def perform (p : Program) (a : Action) : Program :=
  (a.change.make p).2

/-- The program after some actions, from an empty one on. -/
def run (actions : List Action) : Program :=
  actions.foldl perform .empty

/-- The actions that are accepted, with the program after them. -/
inductive Accepts (p : Program) : Action → Program → Prop
  | uniform {name : String} {type : Ty} {binding : Binding}
      (hname : ¬ p.usesUniformName name = true) :
      Accepts p (.uniform name type binding)
        { p with uniforms := p.uniforms.add name ⟨type, binding⟩ }
  | uniformStruct {name : String} {struct : StructDef} {binding : Binding}
      (hname : ¬ p.usesUniformName name = true)
      (hstructs : ∀ s ∈ struct.withDependencies, ¬ p.conflicts s = true) :
      Accepts p (.uniformStruct name struct binding)
        { p with
          structs := struct.withDependencies.foldl (fun t s ↦ t.add s.name s) p.structs
          uniformStructs := p.uniformStructs.add name ⟨struct, binding⟩ }
  | vertexAttribute {name : String} {type : Ty} {location : Option UInt32}
      (hname : ¬ p.attributes.contains name = true) :
      Accepts p (.vertexAttribute name type location)
        { p with attributes := p.attributes.add name ⟨type, location⟩ }
  | varying {name : String} {decl : VaryingDecl} (hname : ¬ p.varyings.contains name = true) :
      Accepts p (.varying name decl) { p with varyings := p.varyings.add name decl }
  | sampler {name : String} {kind : SamplerKind} {binding : Binding}
      (hname : ¬ p.usesUniformName name = true) :
      Accepts p (.sampler name kind binding)
        { p with samplers := p.samplers.add name ⟨kind, binding⟩ }
  | output {name : String} {type : Ty} {location : Option UInt32}
      (hname : ¬ p.outputs.contains name = true) :
      Accepts p (.output name type location)
        { p with outputs := p.outputs.add name ⟨type, location⟩ }
  | constant {value : Term} (hroom : p.constants.size < Program.maxConstants) :
      Accepts p (.constant value) { p with constants := p.constants.push value }
  | helper {name : String} {params : List Ty} {body : Recorder (Option Term)}
      {result : Option Term} {block : Block} (hname : ¬ p.helpers.contains name = true)
      (hbody : body.record = .ok (result, block)) :
      Accepts p (.helper name params body)
        { p with helpers := p.helpers.add name ⟨params, block, result⟩ }
  | entry {name : String} {stage : Stage} {body : Recorder Unit}
      (hname : ¬ p.entries.contains name = true) :
      Accepts p (.entry name stage body)
        { p with entries := p.entries.add name (.new stage body) }
  | ask (k : Question) : Accepts p (.ask k) (k.query.ask p).2.2

theorem make_constant (p : Program) (value : Term) :
    (constant value).change.make p =
      if p.constants.size < Program.maxConstants then
        (.ok (), { p with constants := p.constants.push value })
      else (.error (.tooManyConstants p.constants.size), p) := by
  rw [change, Change.make_bind, Program.make_addConstant]
  by_cases hroom : p.constants.size < Program.maxConstants
  · rw [if_pos hroom, if_pos hroom]
    rfl
  · rw [if_neg hroom, if_neg hroom]

theorem make_of_accepts {p q : Program} {a : Action} (h : Accepts p a q) :
    a.change.make p = (.ok (), q) := by
  cases h with
  | uniform hname => exact (Program.make_declare ..).trans (if_neg hname)
  | uniformStruct hname hstructs =>
      rw [change, Program.make_addUniformStruct, if_neg hname, List.find?_eq_none.mpr hstructs]
  | vertexAttribute hname => exact (Program.make_declare ..).trans (if_neg hname)
  | varying hname => exact (Program.make_declare ..).trans (if_neg hname)
  | sampler hname => exact (Program.make_declare ..).trans (if_neg hname)
  | output hname => exact (Program.make_declare ..).trans (if_neg hname)
  | constant hroom => exact (make_constant ..).trans (if_pos hroom)
  | helper hname hbody => rw [change, Program.make_addHelper, if_neg hname, hbody]
  | entry hname => exact (Program.make_declare ..).trans (if_neg hname)
  | ask k => rfl

/-- A declaration that can only be refused because its name is taken. -/
theorem accepts_or_fails_of_declare {p : Program} {a : Action} {kind : DeclKind} {name : String}
    {taken : Program → Bool} {add : Program → Program}
    (hchange : a.change = Program.declare kind name taken add)
    (haccepts : ¬ taken p = true → Accepts p a (add p)) :
    (∃ q, Accepts p a q) ∨ ∃ e, a.change.make p = (.error e, p) := by
  by_cases hname : taken p = true
  · refine .inr ⟨.duplicate kind name, ?_⟩
    rw [hchange, Program.make_declare, if_pos hname]
  · exact .inl ⟨_, haccepts hname⟩

/-- An action that is not accepted fails and leaves the program as it was. -/
theorem accepts_or_fails (p : Program) (a : Action) :
    (∃ q, Accepts p a q) ∨ ∃ e, a.change.make p = (.error e, p) := by
  cases a with
  | uniform name type binding => exact accepts_or_fails_of_declare rfl .uniform
  | uniformStruct name struct binding =>
      by_cases hname : p.usesUniformName name = true
      · exact .inr ⟨_, (Program.make_addUniformStruct ..).trans (if_pos hname)⟩
      · cases hfind : struct.withDependencies.find? p.conflicts with
        | none => exact .inl ⟨_, .uniformStruct hname (List.find?_eq_none.mp hfind)⟩
        | some s =>
            refine .inr ⟨.duplicate .struct s.name, ?_⟩
            rw [change, Program.make_addUniformStruct, if_neg hname, hfind]
  | vertexAttribute name type location => exact accepts_or_fails_of_declare rfl .vertexAttribute
  | varying name decl => exact accepts_or_fails_of_declare rfl .varying
  | sampler name kind binding => exact accepts_or_fails_of_declare rfl .sampler
  | output name type location => exact accepts_or_fails_of_declare rfl .output
  | constant value =>
      by_cases hroom : p.constants.size < Program.maxConstants
      · exact .inl ⟨_, .constant hroom⟩
      · exact .inr ⟨_, (make_constant ..).trans (if_neg hroom)⟩
  | helper name params body =>
      by_cases hname : p.helpers.contains name = true
      · exact .inr ⟨_, (Program.make_addHelper ..).trans (if_pos hname)⟩
      · cases hbody : body.record with
        | ok r => exact .inl ⟨_, .helper hname hbody⟩
        | error e =>
            refine .inr ⟨e, ?_⟩
            rw [change, Program.make_addHelper, if_neg hname, hbody]
  | entry name stage body => exact accepts_or_fails_of_declare rfl .entry
  | ask k => exact .inl ⟨_, .ask k⟩

theorem outcome_eq_ok_iff {p q : Program} {a : Action} : a.outcome p = .ok q ↔ Accepts p a q := by
  constructor
  · intro h
    rcases accepts_or_fails p a with ⟨q', hq'⟩ | ⟨e, he⟩
    · rw [outcome, make_of_accepts hq'] at h
      cases h
      exact hq'
    · rw [outcome, he] at h
      cases h
  · intro h
    rw [outcome, make_of_accepts h]
    rfl

theorem perform_of_ok {p q : Program} {a : Action} (h : a.outcome p = .ok q) :
    a.perform p = q := by
  rw [perform, make_of_accepts (outcome_eq_ok_iff.mp h)]

/-- A refused action changes nothing. -/
theorem make_of_error {p : Program} {a : Action} {e : Error} (h : a.outcome p = .error e) :
    a.change.make p = (.error e, p) := by
  rcases accepts_or_fails p a with ⟨q, hq⟩ | ⟨e', he'⟩
  · cases h.symm.trans (outcome_eq_ok_iff.mpr hq)
  · rw [outcome, he'] at h
    cases h
    exact he'

theorem perform_of_error {p : Program} {a : Action} {e : Error} (h : a.outcome p = .error e) :
    a.perform p = p := by
  rw [perform, make_of_error h]

theorem perform_eq_or_accepts (p : Program) (a : Action) :
    a.perform p = p ∨ Accepts p a (a.perform p) := by
  cases houtcome : a.outcome p with
  | ok q =>
      rw [perform_of_ok houtcome]
      exact .inr (outcome_eq_ok_iff.mp houtcome)
  | error e => exact .inl (perform_of_error houtcome)

theorem run_append (before after : List Action) :
    run (before ++ after) = after.foldl perform (run before) :=
  List.foldl_append

end Action

end Shading
