import Shading.Proofs.Glsl.Failures
import Shading.Proofs.Wgsl.Failures

/-!
# Entry points that cannot be emitted

Once an entry point has a layout, all that its emission looks up is there.  Then it has a shader in
GLSL 3.00, and a module in WGSL unless a helper shows an input or output of the stage or a call has
not the two arguments that it needs.
-/

namespace Shading

/-- An entry point with a layout is emitted or the author has asked for something that the language
does not have. -/
theorem outcomes_of_layout (p : Program) (hp : p.Reachable) (name : String) :
    (∀ l, ((Query.layout name none).ask p).1 = .ok l → ∃ e, p.emissionOf name none = .ok e ∧
      e.layout = l ∧ ((Query.usage name).ask p).1 = .ok e.usage ∧ e.Located ∧
      (∀ precision, ∃ s, ((Query.glsl name ⟨.es300, precision⟩).ask p).1 = .ok s) ∧
      ∀ o err, ((Query.glsl name o).ask p).1 = .error err → err.category = .invalidArgument) ∧
    ∀ (o : Wgsl.Options) l, ((Query.layout name o.peer).ask p).1 = .ok l →
      ∃ e, p.emissionOf name o.peer = .ok e ∧
      e.layout = l ∧ ((Query.usage name).ask p).1 = .ok e.usage ∧ e.Located ∧
      ((∃ m, ((Query.wgsl name o).ask p).1 = .ok m) ↔
        Wgsl.HelpersPlain e ∧ Wgsl.CallsComplete e) ∧
      ∀ err, ((Query.wgsl name o).ask p).1 = .error err → err.category = .invalidArgument := by
  constructor
  · intro l hl
    rw [(Query.answers_layout name none).ask_eq] at hl
    obtain ⟨e, he, hlayout⟩ := hp.exists_emission hl
    obtain ⟨-, -, husage, -⟩ := hp.emission he
    have hask : ∀ o, ((Query.glsl name o).ask p).1 = Glsl.emit e o := by
      intro o
      rw [(Query.answers_glsl name o).ask_eq, he, ok_bind]
    refine ⟨e, he, hlayout, ((Query.answers_usage name).ask_eq p).trans husage, hp.located he,
      ?_, ?_⟩
    · intro precision
      rw [hask]
      apply exists_ok_of_failsOnly (Glsl.failsOnly_emit (hp.complete he) _)
      rintro err ⟨hversion, -⟩
      cases hversion
    · intro o err herr
      rw [hask] at herr
      exact (Glsl.failsOnly_emit (hp.complete he) o err herr).2
  · intro o l hl
    rw [(Query.answers_layout name o.peer).ask_eq] at hl
    obtain ⟨e, he, hlayout⟩ := hp.exists_emission hl
    obtain ⟨-, -, husage, -⟩ := hp.emission he
    have hask : ((Query.wgsl name o).ask p).1 = Wgsl.emit e o := by
      rw [(Query.answers_wgsl name o).ask_eq, he, ok_bind]
    rw [hask]
    refine ⟨e, he, hlayout, ((Query.answers_usage name).ask_eq p).trans husage, hp.located he,
      Wgsl.exists_emit_iff (hp.complete he) o, ?_⟩
    intro err herr
    exact Wgsl.failsOnly_emit (hp.complete he) (fun _ r _ ↦ Wgsl.failsOnly_lower _ r) err herr

/-- Two fragment entry points that return a varying, one of them through a helper. -/
def tinted : List Action :=
  let color := Ty.ofPrim (.vector .float .four)
  let hue := Term.ofHandle color (.varying "hue")
  [.varying "hue" ⟨color, none, none, none⟩, .helper "tint" [] (return some hue),
    .entry "direct" .fragment (Recorder.leave hue),
    .entry "fs" .fragment (Recorder.leave (.call (.helper "tint") color []))]

theorem outcomes_of_layout_tinted :
    ∃ e e' err, (Action.run tinted).emissionOf "direct" none = .ok e ∧
      Wgsl.HelpersPlain e ∧ Wgsl.CallsComplete e ∧
      (Action.run tinted).emissionOf "fs" none = .ok e' ∧
      (∃ s, ((Query.glsl "fs" .default).ask (Action.run tinted)).1 = .ok s) ∧
      ((Query.wgsl "fs" .default).ask (Action.run tinted)).1 = .error err ∧
      err.category = .invalidArgument ∧ ¬ (Wgsl.HelpersPlain e' ∧ Wgsl.CallsComplete e') := by
  have hrun : Except.toOption (do
      let l ← ((Query.layout "direct" none).ask (Action.run tinted)).1
      let l' ← ((Query.layout "fs" none).ask (Action.run tinted)).1
      let m ← ((Query.wgsl "direct" .default).ask (Action.run tinted)).1
      return ((Query.wgsl "fs" .default).ask (Action.run tinted)).1.toOption.isNone) =
        some true := by
    decide +kernel
  obtain ⟨l, hl, hrun⟩ := bind_eq_ok.mp (eq_ok_of_toOption hrun)
  obtain ⟨l', hl', hrun⟩ := bind_eq_ok.mp hrun
  obtain ⟨m, hm, hrun⟩ := bind_eq_ok.mp hrun
  have houtcomes := outcomes_of_layout _ (Action.reachable_run tinted)
  obtain ⟨e, he, -, -, -, hdirect, -⟩ := (houtcomes "direct").2 .default l hl
  obtain ⟨e', he', -, -, -, hfs, hinvalid⟩ := (houtcomes "fs").2 .default l' hl'
  obtain ⟨-, -, -, -, -, hglsl, -⟩ := (houtcomes "fs").1 l' hl'
  obtain ⟨hplain, hcalls⟩ := hdirect.mp ⟨m, hm⟩
  have hfails : ¬ ∃ m, ((Query.wgsl "fs" .default).ask (Action.run tinted)).1 = .ok m := by
    rintro ⟨m, hm⟩
    have hnone := Except.ok.inj hrun
    rw [hm] at hnone
    cases hnone
  obtain ⟨err, herr⟩ := exists_error_iff.mpr hfails
  exact ⟨e, e', err, he, hplain, hcalls, he', hglsl _, herr, hinvalid err herr,
    fun h ↦ hfails (hfs.mpr h)⟩

end Shading
