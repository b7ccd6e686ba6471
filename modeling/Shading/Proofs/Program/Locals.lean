import Shading.Proofs.Code.Scoping
import Shading.Proofs.Program.Ledger
import Shading.Proofs.Wgsl.Closed

/-!
# Local variables of emitted code

Whatever the calls that record it, a body has no variable that hides another one.  In the code of an
entry point or of a helper every name of a variable leads back to the declaration that its author
meant, in both languages.
-/

namespace Shading

/-! ### Names in the languages -/

theorem Glsl.spells_target (c : Context) (place : Place) : (target c place).Spells := by
  intro h hh
  cases h with
  | constant | argument | localVar => rfl
  | _ => cases hh

theorem Wgsl.spells_target (place : Place) : (target place).Spells := by
  intro h hh
  cases h with
  | constant | argument | localVar => rfl
  | _ => cases hh

/-! ### Declared bodies -/

namespace Program

open Code (Mirrors Target)

theorem parts_of_emissionOf {p : Program} {name : String} {peer : Option String} {e : Emission}
    (h : p.emissionOf name peer = .ok e) :
    e.decls = p.toDeclarations ∧ p.stageOf name = .ok e.stage ∧ p.blockOf name = .ok e.body := by
  obtain ⟨own, -, h⟩ := bind_eq_ok.mp h
  obtain ⟨layout, -, h⟩ := bind_eq_ok.mp h
  obtain ⟨stage, hstage, h⟩ := bind_eq_ok.mp h
  obtain ⟨body, hbody, h⟩ := bind_eq_ok.mp h
  cases h
  exact ⟨rfl, hstage, hbody⟩

namespace DeclaredBy

variable {p : Program} {log : List Action} (h : p.DeclaredBy log) {name : String} {script : Block}
include h

theorem get?_table (kind : DeclKind) (hkind : kind ≠ .struct) {decl : kind.Decl} {a : Action}
    (ha : a ∈ log) (hdecl : (name, decl) ∈ a.declares kind) :
    (p.table kind).get? name = some decl := by
  apply Table.get?_eq_some_iff.mpr
  rw [h.entries kind hkind]
  exact List.mem_flatMap.mpr ⟨a, ha, hdecl⟩

/-- The code of an entry point mirrors any script that records the same. -/
theorem mirrors_entry (hp : p.Recalled) {stage : Stage} {body : Recorder Unit}
    (ha : .entry name stage body ∈ log) (hscript : script.recorder.record = body.record)
    {peer : Option String} {e : Emission} (he : p.emissionOf name peer = .ok e) :
    e.stage = stage ∧
      ∀ t : Target, t.Spells → ∀ code, t.block e.body = .ok code → Mirrors t [] script code := by
  have hget : p.forget.entries.get? name = some (.new stage body) :=
    h.get?_table .entryPoint (by decide) ha List.mem_cons_self
  obtain ⟨-, hstage, hbody⟩ := parts_of_emissionOf he
  rw [← stageOf_forget, stageOf, hget] at hstage
  rw [← hp.blockOf_forget, blockOf, hget] at hbody
  obtain ⟨block, hrecord, hmirrors⟩ := script.mirrors_recorder
  have hrecorded : body.record >>= (fun r ↦ .ok r.2) = .ok e.body := hbody
  rw [← hscript, hrecord] at hrecorded
  cases hstage
  cases hrecorded
  exact ⟨rfl, hmirrors⟩

theorem mirrors_glsl (hp : p.Recalled) {stage : Stage} {body : Recorder Unit}
    (ha : .entry name stage body ∈ log) (hscript : script.recorder.record = body.record)
    {o : Glsl.Options} {s : Glsl.Shader} (hs : (Question.glsl name o).answer p = .ok s) :
    ∃ c, Mirrors (Glsl.target c (.entry stage)) [] script s.main := by
  have hs := ((Query.answers_glsl name o).ask_eq _).symm.trans hs
  obtain ⟨e, he, hemit⟩ := bind_eq_ok.mp hs
  obtain ⟨rfl, hmirrors⟩ := h.mirrors_entry hp ha hscript he
  exact ⟨_, hmirrors _ (Glsl.spells_target _ _) _ (Glsl.parts_of_emit hemit).main⟩

theorem mirrors_wgsl (hp : p.Recalled) {stage : Stage} {body : Recorder Unit}
    (ha : .entry name stage body ∈ log) (hscript : script.recorder.record = body.record)
    {o : Wgsl.Options} {m : Wgsl.Module} (hm : (Question.wgsl name o).answer p = .ok m) :
    ∃ e flow code, p.emissionOf name o.peer = .ok e ∧
      m.entry.body = Wgsl.locals e flow ++ code ++
        (if e.body.endsWithLeave then [] else Wgsl.tail flow) ∧
      Mirrors (Wgsl.target (.entry flow)) [] script code := by
  have hm := ((Query.answers_wgsl name o).ask_eq _).symm.trans hm
  obtain ⟨e, he, hemit⟩ := bind_eq_ok.mp hm
  obtain ⟨-, hmirrors⟩ := h.mirrors_entry hp ha hscript he
  obtain ⟨code, hcode, -, hbody⟩ := Wgsl.emit_entry hemit
  exact ⟨e, _, code, he, hbody, hmirrors _ (Wgsl.spells_target _) _ hcode⟩

section Helpers

variable {params : List Ty} {body : Recorder (Option Term)} {result : Option Term}
  (ha : .helper name params body ∈ log)
  (hscript : (script.helperRecorder params result).record = body.record)
  {f : Code.Function} (hname : f.name = name)
include ha hscript hname

/-- The function of a helper mirrors any script that records the same. -/
theorem mirrors_helper {t : Target} (ht : t.Spells)
    (hleave : ∀ c, t.leave (some c) = [.leave (some c)]) {names : List String}
    {fs : List Code.Function}
    (hfs : names.mapM (fun n ↦ do t.function n (← p.helper n)) = .ok fs) (hf : f ∈ fs) :
    Mirrors t f.env (script.returning result) f.body := by
  obtain ⟨block, value, hrecord, hmirrors⟩ := script.mirrors_helperRecorder params result
  have hget : p.helpers.get? name = some ⟨params, block, value⟩ := by
    refine h.get?_table .function (by decide) ha ?_
    rw [Action.declares_helper (hscript.symm.trans hrecord)]
    exact List.mem_cons_self
  obtain ⟨n, -, hn⟩ := (mem_mapM hfs).mp hf
  obtain ⟨found, hfound, hn⟩ := bind_eq_ok.mp hn
  have hsame : n = name := (Target.name_function hn).symm.trans hname
  rw [hsame] at hfound hn
  cases (Declarations.find_eq_ok.mp hfound).symm.trans hget
  exact hmirrors t ht hleave name f hn

theorem mirrors_glsl_function {entry : String} {o : Glsl.Options} {s : Glsl.Shader}
    (hs : (Question.glsl entry o).answer p = .ok s) (hf : f ∈ s.functions) :
    ∃ c, Mirrors (Glsl.target c .helper) f.env (script.returning result) f.body := by
  have hs := ((Query.answers_glsl entry o).ask_eq _).symm.trans hs
  obtain ⟨e, he, hemit⟩ := bind_eq_ok.mp hs
  have hfunctions := (Glsl.parts_of_emit hemit).functions
  rw [Glsl.functions, (parts_of_emissionOf he).1] at hfunctions
  exact ⟨_, h.mirrors_helper ha hscript hname (Glsl.spells_target _ _) (fun _ ↦ rfl) hfunctions hf⟩

theorem mirrors_wgsl_function {entry : String} {o : Wgsl.Options} {m : Wgsl.Module}
    (hm : (Question.wgsl entry o).answer p = .ok m) (hf : f ∈ m.functions) :
    ∃ stage, Mirrors (Wgsl.target (.helper stage)) f.env (script.returning result) f.body := by
  have hm := ((Query.answers_wgsl entry o).ask_eq _).symm.trans hm
  obtain ⟨e, he, hemit⟩ := bind_eq_ok.mp hm
  have hfunctions := (Wgsl.emit_code hemit).2
  rw [Wgsl.functions, (parts_of_emissionOf he).1] at hfunctions
  exact ⟨_, h.mirrors_helper ha hscript hname (Wgsl.spells_target _) (fun _ ↦ rfl) hfunctions hf⟩

end Helpers

end DeclaredBy

end Program

open Code (Mirrors)

namespace Action

/-- No local variable is captured. -/
structure Uncaptured (actions : List Action) : Prop where
  /-- A variable or a loop counter is none of those that are visible where it is declared. -/
  noShadowing : ∀ (α : Type) (r : Recorder α), r.Written →
    ∀ a block, r.record = .ok (a, block) → block.NoShadowing []
  /-- Variables, arguments and constants have different names. -/
  names : ∀ g h : Handle, g.Numbered → h.Numbered → g.text = h.text → g = h
  /-- The names are `var_i_j`, `arg_n` and `glob_n`, and they are written as they are. -/
  spelled : (∀ i j, (Handle.localVar i j).text = "var_" ++ toString i ++ "_" ++ toString j) ∧
    (∀ n, (Handle.argument n).text = "arg_" ++ toString n) ∧
    (∀ n, (Handle.constant n).text = "glob_" ++ toString n) ∧
    (∀ c place, (Glsl.target c place).Spells) ∧ ∀ place, (Wgsl.target place).Spells
  /-- A body that is written in any way has a script. -/
  scripted : ∀ body : Recorder Unit, body.Written →
    ∀ block, body.record = .ok ((), block) → block.recorder.record = body.record
  scriptedHelper : ∀ params (body : Recorder (Option Term)), body.Written →
    ∀ value block, body.record = .ok (value, block) →
      (block.helperRecorder params value).record = body.record
  /-- A script is a way to write a body, and it can be recorded. -/
  performed : ∀ script : Block, script.recorder.Written ∧
    (∃ block, script.recorder.record = .ok ((), block)) ∧
    ∀ params result, (script.helperRecorder params result).Written ∧
      ∃ value block, (script.helperRecorder params result).record = .ok (value, block)
  /-- The names in an entry point lead back to the declarations of its script. -/
  glsl : ∀ name stage body (script : Block), .entry name stage body ∈ accepted actions →
    script.recorder.record = body.record →
    ∀ o s, (Question.glsl name o).answer (run actions) = .ok s →
      ∃ c, Mirrors (Glsl.target c (.entry stage)) [] script s.main
  wgsl : ∀ name stage body (script : Block), .entry name stage body ∈ accepted actions →
    script.recorder.record = body.record →
    ∀ o m, (Question.wgsl name o).answer (run actions) = .ok m →
      ∃ e flow code, (run actions).emissionOf name o.peer = .ok e ∧
        m.entry.body = Wgsl.locals e flow ++ code ++
          (if e.body.endsWithLeave then [] else Wgsl.tail flow) ∧
        Mirrors (Wgsl.target (.entry flow)) [] script code
  /-- The names in a helper lead back to its parameters and to the declarations of its script. -/
  glslHelper : ∀ name params body (script : Block) result,
    .helper name params body ∈ accepted actions →
    (script.helperRecorder params result).record = body.record →
    ∀ entry o s, (Question.glsl entry o).answer (run actions) = .ok s →
      ∀ f ∈ s.functions, f.name = name →
        ∃ c, Mirrors (Glsl.target c .helper) f.env (script.returning result) f.body
  wgslHelper : ∀ name params body (script : Block) result,
    .helper name params body ∈ accepted actions →
    (script.helperRecorder params result).record = body.record →
    ∀ entry o m, (Question.wgsl entry o).answer (run actions) = .ok m →
      ∀ f ∈ m.functions, f.name = name →
        ∃ stage, Mirrors (Wgsl.target (.helper stage)) f.env (script.returning result) f.body

/-- Local variables are never captured, whatever else is declared and asked. -/
theorem uncaptured_run (actions : List Action) : Uncaptured actions := by
  have hp := (reachable_run actions).recalled
  have hdeclared : (run actions).DeclaredBy (accepted actions) :=
    Program.declaredBy_empty.foldl actions
  refine ⟨fun _ _ h _ _ ↦ h.noShadowing, fun _ _ hg hh ↦ hg.eq_of_text hh,
    ⟨fun _ _ ↦ rfl, fun _ ↦ rfl, fun _ ↦ rfl, Glsl.spells_target, Wgsl.spells_target⟩,
    ?_, ?_, ?_, ?_, ?_, ?_, ?_⟩
  · intro body hbody block hblock
    exact (hbody.record_recorder hblock).trans hblock.symm
  · intro params body hbody value block hblock
    exact (hbody.record_helperRecorder hblock params).trans hblock.symm
  · intro script
    obtain ⟨block, hblock, -⟩ := script.mirrors_recorder
    refine ⟨script.written_recorder, ⟨block, hblock⟩, fun params result ↦ ?_⟩
    obtain ⟨block, value, hrecord, -⟩ := script.mirrors_helperRecorder params result
    exact ⟨script.written_helperRecorder params result, value, block, hrecord⟩
  · exact fun _ _ _ _ hentry hscript _ _ hs ↦ hdeclared.mirrors_glsl hp hentry hscript hs
  · exact fun _ _ _ _ hentry hscript _ _ hm ↦ hdeclared.mirrors_wgsl hp hentry hscript hm
  · exact fun _ _ _ _ _ hhelper hscript _ _ _ hs _ hf hname ↦
      hdeclared.mirrors_glsl_function hhelper hscript hname hs hf
  · exact fun _ _ _ _ _ hhelper hscript _ _ _ hm _ hf hname ↦
      hdeclared.mirrors_wgsl_function hhelper hscript hname hm hf

/-- A loop that adds an argument to a variable. -/
def adding : Block :=
  let sum := Handle.localVar 9 0
  let i := Handle.localVar 9 1
  [.declare .float sum (some (.var (.uniform "gain"))),
    .forLoop .int i (.lit (.int .one #v[0])) (.binary .lt (.var i) (.var (.uniform "count")))
      (.binary .add (.var i) (.lit (.int .one #v[1])))
      [.assign (.var sum) (some .add) (.var (.argument 0))]]

/-- Blocks that have a variable each, all of which the author calls by the same name. -/
def siblings : Block :=
  let x := Handle.localVar 9 0
  let y := Handle.localVar 9 1
  let i := Handle.localVar 9 2
  [.declare .float x (some (.var (.uniform "gain"))),
    .forLoop .int i (.lit (.int .one #v[0])) (.binary .lt (.var i) (.var (.uniform "count")))
      (.binary .add (.var i) (.lit (.int .one #v[1])))
      [.declare .float y (some (.var x)),
        .branch (.binary .lt (.var y) (.var x)) [.declare .float y (some (.var y))] .nothing],
    .branch (.binary .lt (.var x) (.var (.uniform "gain")))
      [.declare .float y none, .assign (.var y) none (.var x)]
      (.always [.declare .float y (some (.call (.helper "add") [.var x])),
        .assign (.var x) none (.var y)]),
    .leave (some (.call (.construct (.vector .float .four)) [.var x]))]

def nested : List Action :=
  [uniform "gain" .float ⟨0, none⟩, uniform "count" .int ⟨0, none⟩,
    helper "add" [.float]
      (adding.helperRecorder [.float] (some (.ofHandle .float (.localVar 9 0)))),
    entry "fs" .fragment siblings.recorder]

theorem uncaptured_run_nested :
    ∃ (s : Glsl.Shader) (m : Wgsl.Module) (f : Code.Function),
      (Question.glsl "fs" .default).answer (run nested) = .ok s ∧
      (Question.wgsl "fs" ⟨false, none⟩).answer (run nested) = .ok m ∧
      (∃ c, Mirrors (Glsl.target c (.entry .fragment)) [] siblings s.main) ∧
      (∃ flow code, code <:+: m.entry.body ∧
        Mirrors (Wgsl.target (.entry flow)) [] siblings code) ∧
      f ∈ s.functions ∧ f.env = [(.argument 0, "arg_0")] ∧
      ∃ c, Mirrors (Glsl.target c .helper) f.env
        (adding.returning (some (.ofHandle .float (.localVar 9 0)))) f.body := by
  have hshader : ((Question.glsl "fs" .default).answer (run nested)).toOption.map
      (fun s ↦ s.functions.map fun f ↦ (f.name, f.env)) =
        some [("add", [(.argument 0, "arg_0")])] := by decide +kernel
  have hmodule : ((Question.wgsl "fs" ⟨false, none⟩).answer (run nested)).toOption.isSome =
      true := by decide +kernel
  obtain ⟨s, hs, hfunctions⟩ := Option.map_eq_some_iff.mp hshader
  obtain ⟨m, hm⟩ := Option.isSome_iff_exists.mp hmodule
  obtain ⟨f, hf, hsame⟩ := List.mem_map.mp (hfunctions ▸ List.mem_cons_self)
  obtain ⟨hname, henv⟩ := Prod.mk.inj hsame
  have hs := eq_ok_of_toOption hs
  have hm := eq_ok_of_toOption hm
  have hentry : .entry "fs" .fragment siblings.recorder ∈ accepted nested :=
    .tail _ (.tail _ (.tail _ (.head _)))
  have hhelper : .helper "add" [.float] (adding.helperRecorder [.float]
      (some (.ofHandle .float (.localVar 9 0)))) ∈ accepted nested := .tail _ (.tail _ (.head _))
  have huncaptured := uncaptured_run nested
  obtain ⟨e, flow, code, -, hbody, hcode⟩ := huncaptured.wgsl _ _ _ siblings hentry rfl _ m hm
  refine ⟨s, m, f, hs, hm, huncaptured.glsl _ _ _ siblings hentry rfl _ s hs, ?_, hf, henv,
    huncaptured.glslHelper _ _ _ adding _ hhelper rfl _ _ s hs f hf hname⟩
  exact ⟨flow, code, ⟨_, _, hbody.symm⟩, hcode⟩

end Action

end Shading
