import Shading.Glsl.Lower
import Shading.Proofs.Outcome
import Shading.Proofs.Structs
import Shading.StructRef
import Shading.Wgsl.Lower

/-!
# Types of struct accesses

What a shader or a module says about its uniforms and structs gives types to accesses in its code.
If it has the definition of a struct uniform and of every struct nested in it, then every access
that was checked against these definitions has a type, and it is the one that was asked for.
-/

namespace Shading

/-! ### Members -/

def Field.memberType : Field → Code.TypeName
  | .value _ t => .ofTy t
  | .nested _ s length => ⟨.named s.name, length.toList⟩

/-- The members of a declared struct, with their types. -/
def StructDef.members (s : StructDef) : List (String × Code.TypeName) :=
  s.fields.map fun f ↦ (f.name, f.memberType)

theorem StructDef.lookup_members {s : StructDef} {name : String} {f : Field}
    (h : s.field? name = some f) : s.members.lookup name = some f.memberType := by
  obtain ⟨n, fs⟩ := s
  rw [field?, fields] at h
  rw [members, fields]
  induction fs with
  | nil => cases h
  | cons g fs ih =>
      rw [List.find?_cons] at h
      rw [List.map_cons, List.lookup_cons]
      split at h
      · next hname =>
          cases h
          rw [eq_of_beq hname, beq_self_eq_true]
      · next hname =>
          have hne : (name == g.name) = false := by
            rw [beq_eq_false_iff_ne] at hname ⊢
            exact hname.symm
          rw [hne]
          exact ih h

/-! ### Checked accesses -/

namespace StructRef

variable {r r' : StructRef} {name : String}

theorem lookup_eq_ok {f : Field} (h : r.lookup name = .ok f) : r.struct.field? name = some f := by
  unfold lookup at h
  split at h
  · next hf =>
      cases h
      exact hf
  · cases h

theorem field_eq_ok {type : Ty} {t : Term} (h : r.field name type = .ok t) :
    ∃ n, r.struct.field? name = some (.value n type) ∧ t = ⟨type, .field r.object name⟩ := by
  obtain ⟨f, hf, h⟩ := bind_eq_ok.mp h
  have hf := lookup_eq_ok hf
  split at h
  · next n t' _ =>
      split at h
      · next htype =>
          cases h
          exact ⟨n, htype ▸ hf, rfl⟩
      · cases h
  · cases h

theorem nested_eq_ok (h : r.nested name = .ok r') :
    ∃ n s, r.struct.field? name = some (.nested n s none) ∧
      r' = ⟨s, .field r.object name⟩ := by
  obtain ⟨f, hf, h⟩ := bind_eq_ok.mp h
  split at h
  · next n s =>
      cases h
      exact ⟨n, s, lookup_eq_ok hf, rfl⟩
  · cases h

theorem nestedAt_eq_ok {position : Term} (h : r.nestedAt name position = .ok r') :
    ∃ n s l, r.struct.field? name = some (.nested n s (some l)) ∧
      r' = ⟨s, .index (.field r.object name) position.expr⟩ := by
  obtain ⟨f, hf, h⟩ := bind_eq_ok.mp h
  split at h
  · next n s l =>
      cases h
      exact ⟨n, s, l, lookup_eq_ok hf, rfl⟩
  · cases h

/-- The struct values that checked accesses lead to from a struct uniform. -/
inductive Reached (name : String) (s : StructDef) : StructRef → Prop
  | uniform : Reached name s (.ofUniform name s)
  | nested {r r' : StructRef} {field : String} (hr : Reached name s r)
      (h : r.nested field = .ok r') : Reached name s r'
  | nestedAt {r r' : StructRef} {field : String} {position : Term} (hr : Reached name s r)
      (h : r.nestedAt field position = .ok r') : Reached name s r'

end StructRef

theorem StructDef.nested_of_field? {s t : StructDef} {name n : String} {l : Option Nat}
    (h : s.field? name = some (.nested n t l)) : .nested n t l ∈ s.fields :=
  List.mem_of_find?_eq_some h

/-- What is nested in something that occurs in a definition is nested in the definition. -/
theorem StructDef.exists_nested {s t d : StructDef} {n : String} {l : Option Nat}
    (ht : t ∈ s.within) (h : .nested n d l ∈ t.fields) :
    ∃ n' e l', .nested n' e l' ∈ s.fields ∧ d ∈ e.within := by
  rcases mem_within_iff.mp ht with rfl | ⟨n', e, l', hmem, ht⟩
  · exact ⟨n, d, l, h, d.mem_within_self⟩
  · exact ⟨n', e, l', hmem, within_trans (within_nested h) ht⟩

namespace Code

/-! ### Types -/

/-- What a shader or a module says about its uniforms and structs. -/
structure Scheme where
  uniforms : List (String × TypeName)
  /-- Uniforms that are blocks, with their members. -/
  blocks : List (String × List (String × TypeName))
  structs : List (String × List (String × TypeName))

namespace Scheme

/-- The types of accesses to uniforms. -/
inductive HasType (g : Scheme) : Expr → TypeName → Prop
  | uniform {name : String} {type : TypeName} (h : (name, type) ∈ g.uniforms) :
      HasType g (.word name) type
  | block {name field : String} {type : TypeName} {members : List (String × TypeName)}
      (h : (name, members) ∈ g.blocks) (hfield : members.lookup field = some type) :
      HasType g (.member (.word name) field) type
  | member {e : Expr} {struct field : String} {type : TypeName}
      {members : List (String × TypeName)} (he : HasType g e (.named struct))
      (h : (struct, members) ∈ g.structs) (hfield : members.lookup field = some type) :
      HasType g (.member e field) type
  | index {e position : Expr} {base : BaseType} {n : Nat} {dims : List Nat}
      (he : HasType g e ⟨base, n :: dims⟩) : HasType g (.index e position) ⟨base, dims⟩

/-- The name of a struct stands for its definition and for nothing else. -/
def Defines (g : Scheme) (d : StructDef) : Prop :=
  g.structs.filter (·.1 == d.name) = [(d.name, d.members)]

/-- A struct uniform has the type of its struct or is a block with the members of its struct, and
all structs that it nests are defined. -/
structure Serves (g : Scheme) (name : String) (s : StructDef) : Prop where
  uniform : (name, .named s.name) ∈ g.uniforms ∧ g.Defines s ∨ (name, s.members) ∈ g.blocks
  nested : ∀ n d l, .nested n d l ∈ s.fields → ∀ e ∈ d.within, g.Defines e

variable {g : Scheme}

theorem Defines.mem {d : StructDef} (h : g.Defines d) : (d.name, d.members) ∈ g.structs := by
  have hmem : (d.name, d.members) ∈ g.structs.filter (·.1 == d.name) := by
    rw [h]
    exact List.mem_cons_self
  exact List.mem_of_mem_filter hmem

end Scheme

/-! ### Accesses in code -/

/-- A target language writes struct uniforms by name, and fields and elements as accesses. -/
structure WritesAccesses (lower : Shading.Expr → Except Error Expr) : Prop where
  uniform : ∀ n, lower (.var (.uniformStruct n)) = .ok (.word n)
  field : ∀ a n, lower (.field a n) = (do return .member (← lower a) n)
  index : ∀ a i, lower (.index a i) = (do return .index (← lower a) (← lower i))

theorem writesAccesses_glsl (c : Glsl.Context) : WritesAccesses (Glsl.lower c) :=
  ⟨fun _ ↦ rfl, fun _ _ ↦ rfl, fun _ _ ↦ rfl⟩

theorem writesAccesses_wgsl (place : Wgsl.Place) : WritesAccesses (Wgsl.lower place) :=
  ⟨fun _ ↦ rfl, fun _ _ ↦ rfl, fun _ _ ↦ rfl⟩

namespace WritesAccesses

variable {lower : Shading.Expr → Except Error Expr} {a : Shading.Expr} {c : Expr}

theorem field_eq_ok (hl : WritesAccesses lower) {n : String} (h : lower (.field a n) = .ok c) :
    ∃ c', lower a = .ok c' ∧ c = .member c' n := by
  rw [hl.field] at h
  obtain ⟨c', hc', h⟩ := bind_eq_ok.mp h
  cases h
  exact ⟨c', hc', rfl⟩

theorem index_eq_ok (hl : WritesAccesses lower) {i : Shading.Expr}
    (h : lower (.index a i) = .ok c) : ∃ c' i', lower a = .ok c' ∧ c = .index c' i' := by
  rw [hl.index] at h
  obtain ⟨c', hc', h⟩ := bind_eq_ok.mp h
  obtain ⟨i', -, h⟩ := bind_eq_ok.mp h
  cases h
  exact ⟨c', i', hc', rfl⟩

end WritesAccesses

namespace Scheme

variable {g : Scheme} {lower : Shading.Expr → Except Error Expr} {name : String} {s : StructDef}
  {r : StructRef}

theorem within_of_reached (hr : r.Reached name s) : r.struct ∈ s.within := by
  induction hr with
  | uniform => exact s.mem_within_self
  | nested _ h ih =>
      obtain ⟨n, t, ht, rfl⟩ := StructRef.nested_eq_ok h
      exact StructDef.within_trans (StructDef.within_nested (StructDef.nested_of_field? ht)) ih
  | nestedAt _ h ih =>
      obtain ⟨n, t, l, ht, rfl⟩ := StructRef.nestedAt_eq_ok h
      exact StructDef.within_trans (StructDef.within_nested (StructDef.nested_of_field? ht)) ih

/-- The code of a struct value is a block, or it has the type of its struct, which is defined. -/
def Holds (g : Scheme) (name : String) (s : StructDef) (c : Expr) (d : StructDef) : Prop :=
  c = .word name ∧ d = s ∧ (name, s.members) ∈ g.blocks ∨ g.HasType c (.named d.name) ∧ g.Defines d

theorem Holds.member {c : Expr} {d : StructDef} (h : g.Holds name s c d) {field : String}
    {f : Field} (hf : d.field? field = some f) : g.HasType (.member c field) f.memberType := by
  have hlookup := StructDef.lookup_members hf
  rcases h with ⟨rfl, rfl, hblock⟩ | ⟨hc, hd⟩
  · exact .block hblock hlookup
  · exact .member hc hd.mem hlookup

theorem Serves.holds (h : g.Serves name s) (hl : WritesAccesses lower) (hr : r.Reached name s)
    {c : Expr} (hc : lower r.object = .ok c) : g.Holds name s c r.struct := by
  have hdefined : ∀ {t d : StructDef} {n field : String} {l : Option Nat}, t ∈ s.within →
      t.field? field = some (.nested n d l) → g.Defines d := by
    intro t d n field l ht hf
    obtain ⟨n', e, l', hmem, hd⟩ := StructDef.exists_nested ht (StructDef.nested_of_field? hf)
    exact h.nested n' e l' hmem d hd
  induction hr generalizing c with
  | uniform =>
      cases (hl.uniform name).symm.trans hc
      rcases h.uniform with ⟨huniform, hs⟩ | hblock
      · exact .inr ⟨.uniform huniform, hs⟩
      · exact .inl ⟨rfl, rfl, hblock⟩
  | nested hr hnested ih =>
      obtain ⟨n, t, ht, rfl⟩ := StructRef.nested_eq_ok hnested
      obtain ⟨c', hc', rfl⟩ := hl.field_eq_ok hc
      exact .inr ⟨(ih hc').member ht, hdefined (within_of_reached hr) ht⟩
  | nestedAt hr hnested ih =>
      obtain ⟨n, t, l, ht, rfl⟩ := StructRef.nestedAt_eq_ok hnested
      obtain ⟨c', i', hfield, rfl⟩ := hl.index_eq_ok hc
      obtain ⟨c'', hc'', rfl⟩ := hl.field_eq_ok hfield
      exact .inr ⟨.index ((ih hc'').member ht), hdefined (within_of_reached hr) ht⟩

/-- An accepted access to a field has the type that was asked for. -/
theorem Serves.field (h : g.Serves name s) (hl : WritesAccesses lower) (hr : r.Reached name s)
    {field : String} {type : Ty} {t : Term} (ht : r.field field type = .ok t) {c : Expr}
    (hc : lower t.expr = .ok c) : t.type = type ∧ g.HasType c (.ofTy type) := by
  obtain ⟨n, hf, rfl⟩ := StructRef.field_eq_ok ht
  obtain ⟨c', hc', rfl⟩ := hl.field_eq_ok hc
  exact ⟨rfl, (h.holds hl hr hc').member hf⟩

/-- All definitions that a struct uniform needs are there, and every checked access to it has its
type. -/
structure Upholds (g : Scheme) (lower : Shading.Expr → Except Error Expr) (name : String)
    (s : StructDef) : Prop where
  serves : g.Serves name s
  value : ∀ (r : StructRef) c, r.Reached name s → lower r.object = .ok c →
    g.Holds name s c r.struct
  field : ∀ (r : StructRef) field type t c, r.Reached name s → r.field field type = .ok t →
    lower t.expr = .ok c → t.type = type ∧ g.HasType c (.ofTy type)

theorem Serves.upholds (h : g.Serves name s) (hl : WritesAccesses lower) :
    g.Upholds lower name s :=
  ⟨h, fun _ _ hr ↦ h.holds hl hr, fun _ _ _ _ _ hr ht ↦ h.field hl hr ht⟩

end Scheme

end Code

end Shading
