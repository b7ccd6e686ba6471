import Shading.Proofs.Emission.Structs
import Shading.Proofs.Program.NameSpaces

/-!
# Struct names and what they stand for

Definitions of the same name in different struct uniforms are equal, as far as they are listed as
dependencies.  A definition that contradicts another one in the same struct uniform is not listed,
so names determine definitions exactly when they do so in each struct uniform.  Then the structs
that are emitted serve every use of the struct uniform.
-/

namespace Shading

/-! ### Known definitions -/

theorem Program.registers_empty : Program.empty.toDeclarations.Registers := by
  intro name u hu
  cases hu

/-- A struct uniform is accepted if its dependencies are new or known. -/
theorem Action.Accepts.registers {p q : Program} {a : Action} (h : Accepts p a q)
    (hp : p.toDeclarations.Registers) : q.toDeclarations.Registers := by
  cases h with
  | @uniformStruct name struct binding hname hstructs =>
      intro other u hu s hs
      have hfree : p.uniformStructs.contains name = false :=
        Bool.eq_false_iff.mpr (Program.not_usesUniformName hname).2.1
      have hlist := Table.foldl_add_name p.structs struct.withDependencies
      rcases (Table.get?_add_of_new hfree).mp hu with hold | ⟨-, rfl⟩
      · rw [hlist]
        exact Table.get?_addAll_of_some (hp other u hold s hs) _
      · rw [hlist]
        apply Table.get?_addAll_of_mem
        · rw [List.map_map]
          exact struct.nodup_withDependencies
        · exact List.mem_map.mpr ⟨s, hs, rfl⟩
        · intro known hknown
          have hagrees := hstructs s hs
          rw [Program.conflicts, hknown] at hagrees
          simpa using hagrees
  | ask k =>
      have hsame : (k.query.ask p).2.2.toDeclarations = p.toDeclarations :=
        (k.answers.ask_agrees p).declarations
      rw [hsame]
      exact hp
  | _ => exact hp

theorem Action.registers_run (actions : List Action) :
    (run actions).toDeclarations.Registers := by
  apply (reachable_run actions).invariant (fun p ↦ p.toDeclarations.Registers)
    Program.registers_empty
  intro p q a hp h
  exact h.registers hp

/-! ### Definitions of the same name -/

/-- All struct definitions that occur in declared struct uniforms. -/
def Program.definitions (p : Program) : List StructDef :=
  p.uniformStructs.entries.flatMap fun (_, u) ↦ u.struct.within

namespace Declarations.Registers

variable {p : Program} (hp : p.toDeclarations.Registers)
include hp

theorem eq_of_name {name name' : String} {u u' : StructUniformDecl}
    (hu : p.uniformStructs.get? name = some u) (hu' : p.uniformStructs.get? name' = some u')
    {d d' : StructDef} (hd : d ∈ u.struct.withDependencies) (hd' : d' ∈ u'.struct.withDependencies)
    (hname : d.name = d'.name) : d = d' := by
  have hknown := hp name u hu d hd
  rw [hname, hp name' u' hu' d' hd'] at hknown
  exact (Option.some.inj hknown).symm

/-- Names determine definitions if they do so in each struct uniform. -/
theorem coherent_definitions_iff : StructDef.Coherent p.definitions ↔
    ∀ name u, p.uniformStructs.get? name = some u → StructDef.Coherent u.struct.within := by
  constructor
  · intro h name u hu
    apply h.mono
    intro d hd
    exact List.mem_flatMap.mpr ⟨(name, u), Table.mem_of_get? hu, hd⟩
  · intro h d hd d' hd' hname
    obtain ⟨⟨n, u⟩, hmem, hd⟩ := List.mem_flatMap.mp hd
    obtain ⟨⟨n', u'⟩, hmem', hd'⟩ := List.mem_flatMap.mp hd'
    have hu := Table.get?_eq_some_iff.mpr hmem
    have hu' := Table.get?_eq_some_iff.mpr hmem'
    have hd := (StructDef.mem_withDependencies (h n u hu)).mpr hd
    have hd' := (StructDef.mem_withDependencies (h n' u' hu')).mpr hd'
    exact hp.eq_of_name hu hu' hd hd' hname

end Declarations.Registers

/-! ### Emitted structs -/

namespace Program.Reachable

variable {p : Program} (hp : p.Reachable) (hknown : p.toDeclarations.Registers) {name : String}
  {u : StructUniformDecl} (hu : p.uniformStructs.get? name = some u)
  (hcoherent : StructDef.Coherent u.struct.within) {entry : String} {usage : Usage}
  (husage : (Question.usage entry).answer p = .ok usage) (hname : name ∈ usage.uniformStructs)
include hp hknown hu hcoherent husage hname

theorem upholds_wgsl {o : Wgsl.Options} {m : Wgsl.Module}
    (hm : (Question.wgsl entry o).answer p = .ok m)
    (hfree : ∀ t ∈ m.interface, ∀ d ∈ u.struct.within, t.name ≠ d.name) (place : Wgsl.Place) :
    m.scheme.Upholds (Wgsl.lower place) name u.struct := by
  have hm := ((Query.answers_wgsl entry o).ask_eq p).symm.trans hm
  obtain ⟨e, he, hemit⟩ := bind_eq_ok.mp hm
  obtain ⟨hdecls, -, hown, -⟩ := hp.emission he
  have husage := ((Query.answers_usage entry).ask_eq p).symm.trans husage
  cases hown.symm.trans husage
  have hdeclared := hp.sound.declared entry e.usage hown
  rw [← hdecls] at hknown hdeclared hu
  exact (Wgsl.serves_of_emit hemit hknown hdeclared hname hu hcoherent hfree).upholds
    (Code.writesAccesses_wgsl place)

theorem upholds_glsl {o : Glsl.Options} {s : Glsl.Shader}
    (hs : (Question.glsl entry o).answer p = .ok s) (c : Glsl.Context) :
    s.scheme.Upholds (Glsl.lower c) name u.struct := by
  have hs := ((Query.answers_glsl entry o).ask_eq p).symm.trans hs
  obtain ⟨e, he, hemit⟩ := bind_eq_ok.mp hs
  obtain ⟨hdecls, -, hown, -⟩ := hp.emission he
  have husage := ((Query.answers_usage entry).ask_eq p).symm.trans husage
  cases hown.symm.trans husage
  have hdeclared := hp.sound.declared entry e.usage hown
  rw [← hdecls] at hknown hdeclared hu
  exact (Glsl.serves_of_emit hemit hknown hdeclared hname hu hcoherent).upholds
    (Code.writesAccesses_glsl c)

end Program.Reachable

namespace Action

/-- Definitions that are listed as dependencies are equal if their names are, and all definitions
are if this holds in each struct uniform.  A used struct uniform in which it holds finds all its
definitions emitted, each name once, and every checked access to it has the type that was asked
for, unless a struct of the interface has one of its names. -/
theorem names_determine_structs (actions : List Action) :
    (∀ name u name' u', (run actions).uniformStructs.get? name = some u →
      (run actions).uniformStructs.get? name' = some u' →
      ∀ d ∈ u.struct.withDependencies, ∀ d' ∈ u'.struct.withDependencies,
        d.name = d'.name → d = d') ∧
    (StructDef.Coherent (run actions).definitions ↔ ∀ name u,
      (run actions).uniformStructs.get? name = some u → StructDef.Coherent u.struct.within) ∧
    ∀ name u, (run actions).uniformStructs.get? name = some u →
      StructDef.Coherent u.struct.within → ∀ entry usage,
      (Question.usage entry).answer (run actions) = .ok usage → name ∈ usage.uniformStructs →
      (∀ o m, (Question.wgsl entry o).answer (run actions) = .ok m →
        (∀ t ∈ m.interface, ∀ d ∈ u.struct.within, t.name ≠ d.name) →
        ∀ place, m.scheme.Upholds (Wgsl.lower place) name u.struct) ∧
      (∀ o s, (Question.glsl entry o).answer (run actions) = .ok s →
        ∀ c, s.scheme.Upholds (Glsl.lower c) name u.struct) := by
  have hknown := registers_run actions
  have hreachable := reachable_run actions
  refine ⟨?_, hknown.coherent_definitions_iff, ?_⟩
  · intro name u name' u' hu hu' d hd d' hd'
    exact hknown.eq_of_name hu hu' hd hd'
  · intro name u hu hcoherent entry usage husage hname
    exact ⟨fun o m hm hfree ↦ hreachable.upholds_wgsl hknown hu hcoherent husage hname hm hfree,
      fun o s hs ↦ hreachable.upholds_glsl hknown hu hcoherent husage hname hs⟩

/-- A scene with one light of its own and two in an array. -/
def scene : StructDef :=
  let light := StructDef.mk "Light" [.value "power" .float]
  .mk "Scene" [.nested "sun" light none, .nested "lamps" light (some 2)]

/-- The colour of a fragment is the power of one of the lamps. -/
def illuminated : List Action :=
  let lamp := Expr.index (.field (.var (.uniformStruct "scene")) "lamps") (.var (.uniform "pick"))
  [uniform "pick" .int ⟨0, none⟩, uniformStruct "scene" scene ⟨0, none⟩,
    entry "fs" .fragment (Recorder.leave ⟨.ofPrim (.vector .float .four),
      .call (.construct (.vector .float .four)) [.field lamp "power"]⟩)]

theorem names_determine_structs_illuminated :
    ∃ (m : Wgsl.Module) (r : StructRef) (t : Term) (c : Code.Expr),
      (Question.wgsl "fs" ⟨false, none⟩).answer (run illuminated) = .ok m ∧
      r.Reached "scene" scene ∧ r.field "power" .float = .ok t ∧
      Wgsl.lower .standalone t.expr = .ok c ∧ m.scheme.HasType c (.ofTy .float) ∧
      m.scheme.Defines (.mk "Light" [.value "power" .float]) := by
  have hmodule : ((Question.wgsl "fs" ⟨false, none⟩).answer (run illuminated)).toOption.map
      (fun m ↦ m.interface.map (·.name)) = some [] := by decide +kernel
  have hused : ((Question.usage "fs").answer (run illuminated)).toOption.map
      (fun u ↦ u.uniformStructs.toList) = some ["scene"] := by decide +kernel
  obtain ⟨m, hm, hinterface⟩ := Option.map_eq_some_iff.mp hmodule
  obtain ⟨u, hu, hscene⟩ := Option.map_eq_some_iff.mp hused
  have hm := eq_ok_of_toOption hm
  have hname : "scene" ∈ u.uniformStructs.toList := hscene ▸ List.mem_cons_self
  have hfree : ∀ t ∈ m.interface, ∀ d ∈ scene.within, t.name ≠ d.name := by
    rw [List.map_eq_nil_iff.mp hinterface]
    intro t ht
    cases ht
  have hcoherent : StructDef.Coherent scene.within := by decide +kernel
  obtain ⟨-, -, huphold⟩ := names_determine_structs illuminated
  obtain ⟨hwgsl, -⟩ := huphold "scene" ⟨scene, ⟨0, none⟩⟩ rfl hcoherent "fs" u
    (eq_ok_of_toOption hu) hname
  have hupholds := hwgsl _ m hm hfree .standalone
  have haccess : (StructRef.ofUniform "scene" scene).nestedAt "lamps"
      (.ofHandle .int (.uniform "pick")) = .ok ⟨.mk "Light" [.value "power" .float],
        .index (.field (.var (.uniformStruct "scene")) "lamps") (.var (.uniform "pick"))⟩ := rfl
  have hlamp := StructRef.Reached.nestedAt .uniform haccess
  have hdefines := hupholds.serves.nested "sun" _ none List.mem_cons_self _
    (StructDef.mem_within_self _)
  exact ⟨m, _, _, _, hm, hlamp, rfl, rfl, (hupholds.field _ "power" .float _ _ hlamp rfl rfl).2,
    hdefines⟩

/-- A struct that nests two structs of the same name. -/
def twins : StructDef :=
  .mk "Outer" [.nested "a" (.mk "Inner" [.value "x" .float]) none,
    .nested "b" (.mk "Inner" [.value "y" (.ofPrim (.vector .float .four))]) none]

/-- The position of a vertex is a field of the second one. -/
def twinned : List Action :=
  [uniformStruct "u" twins ⟨0, none⟩,
    entry "vs" .vertex (Recorder.leave ⟨.ofPrim (.vector .float .four),
      .field (.field (.var (.uniformStruct "u")) "b") "y"⟩)]

/-- Two definitions of one name in one struct uniform are accepted.  Only the first one is emitted,
so an access that was accepted may name a field that is not there. -/
theorem missing_member_twinned :
    ¬ StructDef.Coherent (run twinned).definitions ∧
      ∃ (m : Wgsl.Module) (r : StructRef) (t : Term),
        (Question.wgsl "vs" ⟨false, none⟩).answer (run twinned) = .ok m ∧
        r.Reached "u" twins ∧ r.struct.name = "Inner" ∧
        r.field "y" (.ofPrim (.vector .float .four)) = .ok t ∧
        m.scheme.structs.lookup "Inner" = some [("x", .ofTy .float)] := by
  have hmodule : ((Question.wgsl "vs" ⟨false, none⟩).answer (run twinned)).toOption.map
      (fun m ↦ m.scheme.structs.lookup "Inner") = some (some [("x", .ofTy .float)]) := by
    decide +kernel
  obtain ⟨m, hm, hinner⟩ := Option.map_eq_some_iff.mp hmodule
  have haccess : (StructRef.ofUniform "u" twins).nested "b" =
      .ok ⟨.mk "Inner" [.value "y" (.ofPrim (.vector .float .four))],
        .field (.var (.uniformStruct "u")) "b"⟩ := rfl
  exact ⟨by decide +kernel, m, _, _, eq_ok_of_toOption hm, .nested .uniform haccess, rfl, rfl,
    hinner⟩

end Action

end Shading
