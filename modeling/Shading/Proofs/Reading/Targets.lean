import Shading.Glsl.Emit
import Shading.Proofs.Reading.Languages
import Shading.Proofs.Reading.Written
import Shading.Wgsl.Emit

/-!
# Written expressions in the target languages

The writers against what an expression is meant to read as.  They choose the same names and the same
shape, and every word that they write is one word to a reader of the text.

Main statement: the text of an expression is read as its tree in the target language, regrouped.
-/

namespace Shading.Reading

/-! ### The names that are written -/

theorem primName_glsl : Glsl.primName = glslPrim := by
  funext p
  rcases p with ⟨s, d⟩ | m
  · cases s <;> cases d <;> decide
  · cases m <;> decide

theorem primName_wgsl : Wgsl.primName = wgslPrim := by
  funext p
  rcases p with ⟨s, d⟩ | m
  · cases s <;> cases d <;> decide
  · cases m <;> decide

theorem typeText_glsl (t : Ty) : Glsl.typeText (.ofTy t) = glslType t := by
  have hdims : ∀ (dims : List Nat) (base : String), base ++ Glsl.dimsText dims =
      dims.foldl (fun name n ↦ name ++ "[" ++ toString n ++ "]") base := by
    intro dims
    induction dims with
    | nil => exact fun base ↦ String.append_empty
    | cons n dims ih =>
        intro base
        rw [List.foldl_cons, ← ih]
        simp only [Glsl.dimsText, List.map_cons, String.join_cons, String.append_assoc]
  rw [Glsl.typeText, glslType, ← primName_glsl]
  exact hdims t.dims _

theorem typeText_wgsl (t : Ty) : Wgsl.typeText (.ofTy t) = wgslType t := by
  have hdims : ∀ (dims : List Nat) (base : String), Wgsl.arrayText base dims =
      dims.foldr (fun n element ↦ "array<" ++ element ++ ", " ++ toString n ++ ">") base := by
    intro dims base
    induction dims with
    | nil => rfl
    | cons n dims ih => rw [Wgsl.arrayText, List.foldr_cons, ih]
  rw [Wgsl.typeText, wgslType, ← primName_wgsl]
  exact hdims t.dims _

theorem intrinsicName_glsl : Glsl.intrinsicName = glslFunction := by
  funext f
  cases f <;> rfl

theorem text_swizzle (s : Swizzle) : s.text = swizzleName s := by
  have hletter : Channel.letter = channelName := by
    funext c
    cases c <;> rfl
  rw [Swizzle.text, swizzleName, hletter]

theorem isFragCoordY_eq (e : Expr) (channels : Swizzle) :
    Wgsl.isFragCoordY e channels = isVertical e channels := by
  have hname : ∀ cs : List Channel, cs = [.y] ↔ String.ofList (cs.map channelName) = "y" := by
    intro cs
    have hlist : "y".toList = ['y'] := by decide
    rw [← String.toList_inj, String.toList_ofList, hlist]
    rcases cs with - | ⟨c, - | ⟨d, cs⟩⟩
    · simp
    · cases c <;> simp [channelName]
    · simp
  cases e with
  | var h =>
      cases h with
      | builtin b =>
          cases b with
          | fragCoord => exact decide_eq_decide.mpr (hname _)
          | _ => rfl
      | _ => rfl
  | _ => rfl

theorem collapse_eq_shown {α : Type} (same : α → α → Bool) (xs : List α) :
    Code.collapse same xs = shown same xs := by
  cases xs with
  | nil => rfl
  | cons x xs => simp [Code.collapse, shown]

/-! ### The words that are written -/

theorem isName_valueName {h : Handle} (hnamed : NamedHandle h) (hb : ∀ b, h ≠ .builtin b) :
    isName (valueName h) = true := by
  have hdigits : ∀ n : Nat, (toString n).toList.all isWordChar = true := by
    intro n
    rw [toList_toString, List.all_eq_true]
    exact fun c hc ↦ isWordChar_of_isDigit ((digits_toDigits n).2 c hc)
  have hnumbered : ∀ (stem tail : String), isIdentifier stem = true → '_' ∈ stem.toList →
      tail.toList.all isWordChar = true → isName (stem ++ tail) = true := by
    intro stem tail hstem hmark htail
    apply isName_of_underscore (isIdentifier_append hstem htail)
    rw [String.toList_append]
    exact List.mem_append_left _ hmark
  cases h with
  | builtin b => exact (hb b rfl).elim
  | constant i => exact hnumbered "glob_" _ (by decide) (by decide) (hdigits i)
  | argument i => exact hnumbered "arg_" _ (by decide) (by decide) (hdigits i)
  | localVar d i =>
      have hstem : isIdentifier ("var_" ++ toString d ++ "_") = true :=
        isIdentifier_append (isIdentifier_append (by decide) (hdigits d)) (by decide)
      exact hnumbered _ _ hstem (by simp) (hdigits i)
  | _ => exact hnamed

theorem isName_sampler {texture : String} (h : isName texture = true) :
    isName (texture ++ "_sampler") = true := by
  have hident := (Bool.and_eq_true_iff.mp h).1
  exact isName_of_underscore (isIdentifier_append hident (by decide)) (by simp)

theorem isName_swizzleName (s : Swizzle) : isName (swizzleName s) = true := by
  have hletter : ∀ c : Channel, isWordChar (channelName c) = true ∧
      (channelName c).isDigit = false ∧ ['x', 'y', 'z', 'w'].contains (channelName c) = true := by
    intro c
    cases c <;> decide
  have hlist : (swizzleName s).toList = s.channels.toList.map channelName := String.toList_ofList
  have hmem : ∀ c ∈ (swizzleName s).toList, ∃ channel, c = channelName channel := by
    intro c hc
    rw [hlist] at hc
    obtain ⟨channel, -, rfl⟩ := List.mem_map.mp hc
    exact ⟨channel, rfl⟩
  have htype : sizedTypes.contains (swizzleName s) = false := by
    -- No type is spelled with the letters of channels only.
    have hother : sizedTypes.all (fun t ↦ !t.toList.all ['x', 'y', 'z', 'w'].contains) = true := by
      decide
    have hletters : (swizzleName s).toList.all ['x', 'y', 'z', 'w'].contains = true := by
      rw [List.all_eq_true]
      intro c hc
      obtain ⟨channel, rfl⟩ := hmem c hc
      exact (hletter channel).2.2
    rw [Bool.eq_false_iff]
    intro h
    simpa [hletters] using List.all_eq_true.mp hother _ (List.contains_iff_mem.mp h)
  have hfirst : (swizzleName s).toList.head?.all Char.isDigit = false := by
    cases hs : (swizzleName s).toList with
    | nil =>
        have hsize : s.dim.size = 0 := by
          simpa [hs] using (congrArg List.length hlist).symm
        cases hd : s.dim <;> rw [hd] at hsize <;> cases hsize
    | cons c cs =>
        obtain ⟨channel, rfl⟩ := hmem c (by simp [hs])
        exact (hletter channel).2.1
  have hall : (swizzleName s).toList.all isWordChar = true := by
    rw [List.all_eq_true]
    intro c hc
    obtain ⟨channel, rfl⟩ := hmem c hc
    exact (hletter channel).1
  rw [isName, isIdentifier, hall, hfirst, htype]
  rfl

theorem isName_glslFunction (f : Intrinsic) : isName (glslFunction f) = true := by
  cases f <;> decide

theorem called_glslType (t : Ty) : Called (glslType t) := by
  have hbase : Glsl.primName t.prim ∈ sizedTypes := by
    rcases t.prim with ⟨s, d⟩ | m
    · cases s <;> cases d <;> decide
    · cases m <;> decide
  have hcons : ∀ n dims, (Glsl.dimsText (n :: dims)).toList =
      '[' :: (Nat.toDigits 10 n ++ ']' :: (Glsl.dimsText dims).toList) := by
    intro n dims
    simp [Glsl.dimsText, String.join_cons]
  have hsizes : ∀ dims, ∀ c ∈ (Glsl.dimsText dims).toList, isSizeChar c = true := by
    intro dims
    induction dims with
    | nil => simp [Glsl.dimsText]
    | cons n dims ih =>
        have hdigit : ∀ c ∈ Nat.toDigits 10 n, isSizeChar c = true := by
          intro c hc
          simp [isSizeChar, (digits_toDigits n).2 c hc]
        rw [hcons]
        simp only [List.forall_mem_cons, List.forall_mem_append]
        exact ⟨by decide, hdigit, by decide, ih⟩
  have hfirst : ∀ c ∈ (Glsl.dimsText t.dims).toList.head?, isWordChar c = false ∧ c ≠ '<' := by
    cases t.dims with
    | nil => simp [Glsl.dimsText]
    | cons n dims =>
        rw [hcons]
        simp [isWordChar]
  rw [← typeText_glsl]
  exact called_sized hbase (hsizes t.dims) hfirst

theorem called_glslPrim (p : Prim) : Called (glslPrim p) :=
  called_glslType ⟨p, []⟩

theorem balanced_wgslScalar (s : Scalar) : Balanced (wgslScalar s) := by
  apply balanced_of_notMem <;> cases s <;> decide

theorem balanced_generic {name inner : String} (hname : isIdentifier name = true)
    (h : Balanced inner) : Balanced (name ++ "<" ++ inner ++ ">") := by
  have hmarks : ∀ c ∈ name.toList, isWordChar c = true :=
    List.all_eq_true.mp (Bool.and_eq_true_iff.mp hname).1
  have hplain : Balanced name := by
    apply balanced_of_notMem <;>
      · intro hmem
        exact absurd (hmarks _ hmem) (by decide)
  have hangle : Balanced ("<" ++ (inner ++ ">")) := by
    rw [← String.append_assoc]
    exact h.angle
  rw [String.append_assoc, String.append_assoc]
  exact hplain.append hangle

theorem called_wgslPrim (p : Prim) : Balanced (wgslPrim p) ∧ Called (wgslPrim p) := by
  have hgeneric : ∀ {name} (s : Scalar), isIdentifier name = true →
      Balanced (name ++ "<" ++ wgslScalar s ++ ">") ∧
        Called (name ++ "<" ++ wgslScalar s ++ ">") :=
    fun s hname ↦ ⟨balanced_generic hname (balanced_wgslScalar s),
      isWord_generic hname (balanced_wgslScalar s) _⟩
  rcases p with ⟨s, d⟩ | m
  · cases d with
    | one =>
        refine ⟨balanced_wgslScalar s, ?_⟩
        cases s with
        | bool => exact called_glslPrim (.vector .bool .one)
        | _ => exact (alone_of_isName (by decide)).called
    | _ => exact hgeneric s (by decide)
  · cases m <;> exact hgeneric .float (by decide)

theorem called_wgslType (t : Ty) : Called (wgslType t) := by
  have hdims : ∀ dims : List Nat,
      Balanced (dims.foldr (fun n element ↦ "array<" ++ element ++ ", " ++ toString n ++ ">")
        (wgslPrim t.prim)) ∧
      Called (dims.foldr (fun n element ↦ "array<" ++ element ++ ", " ++ toString n ++ ">")
        (wgslPrim t.prim)) := by
    intro dims
    induction dims with
    | nil => exact called_wgslPrim t.prim
    | cons n dims ih =>
        have hcount : Balanced (", " ++ toString n) := by
          apply balanced_of_notMem <;>
            · rw [String.toList_append, toList_toString]
              simp [notMem_toDigits]
        have hinner := ih.1.append hcount
        have hname : "array<" = "array" ++ "<" := by decide
        have htext : ∀ element : String, "array<" ++ element ++ ", " ++ toString n ++ ">" =
            "array" ++ "<" ++ (element ++ (", " ++ toString n)) ++ ">" := by
          intro element
          simp only [hname, String.append_assoc]
        rw [List.foldr_cons, htext]
        exact ⟨balanced_generic (by decide) hinner, isWord_generic (by decide) hinner _⟩
  exact (hdims t.dims).2

/-! ### Literals -/

section Literals

variable {named : Prop}

theorem writtenAll_map {α : Type} {write : α → Code.Expr} {tree : α → Tree}
    (h : ∀ x, Written named (write x) (tree x)) (xs : List α) :
    WrittenAll named (xs.map write) (xs.map tree) := by
  induction xs with
  | nil => exact writtenAll_nil
  | cons x xs ih => exact (h x).cons ih

theorem written_signed (negative : Bool) {text : String} (h : Alone text) :
    Written named (Code.signed negative text) (signedTree negative text) := by
  cases negative with
  | false => exact Written.ofWord fun _ ↦ h
  | true => exact (Written.ofWord fun _ ↦ h).unary .neg

theorem written_components (v : Literal) :
    WrittenAll named (Code.components v) (componentTrees v) := by
  have hfloat : ∀ x, Written named (Code.floatComponent x) (floatTree x) :=
    fun x ↦ written_signed x.isNegative (alone_text x)
  cases v with
  | int d v =>
      rw [Code.components, componentTrees, collapse_eq_shown]
      exact writtenAll_map (fun x ↦ written_signed _ (alone_toString _)) _
  | uint d v =>
      rw [Code.components, componentTrees, collapse_eq_shown]
      exact writtenAll_map (fun x ↦ Written.ofWord fun _ ↦ alone_uint _) _
  | float d v =>
      rw [Code.components, componentTrees, collapse_eq_shown]
      exact writtenAll_map hfloat _
  | bool d v =>
      rw [Code.components, componentTrees, collapse_eq_shown]
      refine writtenAll_map (fun x ↦ Written.ofName fun _ ↦ ?_) _
      cases x <;> decide
  | matrix m columns =>
      rw [Code.components, componentTrees]
      exact writtenAll_map hfloat _

theorem written_literal {spell : Prim → String} (hspell : ∀ p, Called (spell p)) (v : Literal) :
    Written named (Code.literal spell v) (literalTree spell v) := by
  have h : WrittenAll named (Code.components v) (componentTrees v) := written_components v
  have hcall : Written named (.call (spell v.prim) (Code.components v))
      (.call (spell v.prim) (componentTrees v)) := h.call fun _ ↦ hspell v.prim
  have htrees := h.tree
  unfold Code.literal literalTree
  cases v.prim.isScalar with
  | false => exact hcall
  | true =>
      rcases hcodes : Code.components v with - | ⟨c, - | ⟨c', cs⟩⟩ <;>
        rw [hcodes] at h hcall htrees <;> simp only [treesOf] at htrees <;>
        rw [← htrees] at h hcall ⊢
      · exact hcall
      · exact h.head
      · exact hcall

end Literals

/-! ### Writing GLSL -/

section Glsl

variable {named : Prop} {color : String} (location : String → Nat)

/-- A context of version 3.00, where the colour of a fragment is a variable. -/
def glslContext (color : String) (location : String → Nat) : Glsl.Context :=
  ⟨.es300, .word color, location⟩

theorem glsl_lowerHandle (hcolor : named → isName color = true) {h : Handle}
    (hnamed : named → NamedHandle h) :
    Yields named True (Glsl.lowerHandle (glslContext color location) h) (glslHandle color h) := by
  have hname : (∀ b, h ≠ .builtin b) →
      Written named (.word (valueName h)) (.word (valueName h)) :=
    fun hb ↦ Written.ofName fun hn ↦ isName_valueName (hnamed hn) hb
  cases h with
  | builtin b =>
      cases b with
      | fragColor => exact (Written.ofName hcolor).yields
      | _ => exact (Written.ofName fun _ ↦ by decide).yields
  | _ => exact (hname (by simp)).yields

theorem written_glsl_texelFetch (kind : SamplerKind) {codes : List Code.Expr} {ts : List Tree}
    (hne : ts ≠ []) (h : WrittenAll named codes ts) :
    Written named (Glsl.texelFetch kind codes) (glslCall (.texelFetch kind) ts) := by
  have hcodes : codes.isEmpty = false := by
    cases codes with
    | nil => exact (hne h.tree.symm).elim
    | cons c cs => rfl
  have hlevel : Written named (.word "0") (.word "0") := Written.ofWord fun _ ↦ alone_toString 0
  have hcall : Written named (.call "texelFetch" (codes ++ [.word "0"]))
      (.call "texelFetch" (ts ++ [.word "0"])) :=
    (h.append hlevel.single).call fun _ ↦ (alone_of_isName (by decide)).called
  unfold Glsl.texelFetch
  rw [hcodes]
  cases kind with
  | depth => exact hcall.member fun _ ↦ by decide
  | _ => exact hcall

theorem glsl_calleeName {callee : Callee} (h : ∀ kind, callee ≠ .texelFetch kind)
    (hnamed : named → NamedCallee callee) :
    ∃ name, Glsl.calleeName .es300 callee = .ok name ∧ glslCall callee = Tree.call name ∧
      (named → Called name) := by
  cases callee with
  | construct p =>
      exact ⟨glslPrim p, by rw [← primName_glsl]; rfl, rfl, fun _ ↦ called_glslPrim p⟩
  | intrinsic f =>
      refine ⟨glslFunction f, by rw [← intrinsicName_glsl]; rfl, rfl, fun _ ↦ ?_⟩
      exact (alone_of_isName (isName_glslFunction f)).called
  | texture kind => exact ⟨_, rfl, rfl, fun _ ↦ (alone_of_isName (by decide)).called⟩
  | texelFetch kind => exact (h kind rfl).elim
  | helper name => exact ⟨_, rfl, rfl, fun hn ↦ (alone_of_isName (hnamed hn)).called⟩

theorem glsl_call {callee : Callee} {args : List Expr} (hproper : ProperCall callee args)
    (hnamed : named → NamedCallee callee)
    (hargs : YieldsAll named True (Glsl.lowerAll (glslContext color location) args)
      (readings (glsl color) args)) :
    Yields named True (Glsl.lower (glslContext color location) (.call callee args))
      (glslCall callee (readings (glsl color) args)) := by
  by_cases hfetch : ∃ kind, callee = .texelFetch kind
  · obtain ⟨kind, rfl⟩ := hfetch
    have hne : readings (glsl color) args ≠ [] := by
      cases args with
      | nil => exact (hproper rfl).elim
      | cons a args => simp [readings]
    rw [Glsl.lower]
    exact hargs.bind fun _ hw ↦ (written_glsl_texelFetch kind hne hw).yields
  · have hother : ∀ kind, callee ≠ .texelFetch kind := fun kind hk ↦ hfetch ⟨kind, hk⟩
    obtain ⟨name, hname, hcall, hcalled⟩ := glsl_calleeName hother hnamed
    rw [Glsl.lower, hcall]
    · rw [show (glslContext color location).version = .es300 from rfl, hname]
      exact hargs.call hcalled
    · exact hother

mutual

theorem glsl_lower (hcolor : named → isName color = true) : ∀ e : Expr, Proper e →
    (named → Named e) →
    Yields named True (Glsl.lower (glslContext color location) e) (reading (glsl color) e)
  | .lit v, _, _ => by
    have hspell : ∀ p, Called (Glsl.primName p) := by
      rw [primName_glsl]
      exact called_glslPrim
    rw [Glsl.lower, reading, show (glsl color).primName = Glsl.primName from primName_glsl.symm]
    exact (written_literal hspell v).yields
  | .array t items, h, hn => by
    rw [Glsl.lower, reading, show (glsl color).typeName t = Glsl.typeText (.ofTy t) from
      (typeText_glsl t).symm]
    refine (glsl_lowerAll hcolor items (by simpa only [Proper] using h)
      (by simpa only [Named] using hn)).call fun _ ↦ ?_
    rw [typeText_glsl]
    exact called_glslType t
  | .var h, _, hn => by
    rw [Glsl.lower, reading]
    exact glsl_lowerHandle location hcolor (by simpa only [Named] using hn)
  | .unary op a, h, hn => by
    rw [Glsl.lower, reading]
    exact (glsl_lower hcolor a (by simpa only [Proper] using h)
      (by simpa only [Named] using hn)).unary op
  | .binary op a b, h, hn => by
    have hab : Proper a ∧ Proper b := by simpa only [Proper] using h
    have hnab : named → Named a ∧ Named b := by simpa only [Named] using hn
    rw [Glsl.lower, reading]
    exact (glsl_lower hcolor a hab.1 fun h ↦ (hnab h).1).binary
      (glsl_lower hcolor b hab.2 fun h ↦ (hnab h).2) op
  | .call callee args, h, hn => by
    have hargs : ProperCall callee args ∧ ProperAll args := by simpa only [Proper] using h
    have hnargs : named → NamedCallee callee ∧ NamedAll args := by simpa only [Named] using hn
    rw [reading]
    exact glsl_call location hargs.1 (fun h ↦ (hnargs h).1)
      (glsl_lowerAll hcolor args hargs.2 fun h ↦ (hnargs h).2)
  | .swizzle a channels, h, hn => by
    rw [Glsl.lower, reading, text_swizzle]
    exact (glsl_lower hcolor a (by simpa only [Proper] using h)
      (by simpa only [Named] using hn)).member fun _ ↦ isName_swizzleName channels
  | .field a name, h, hn => by
    have hna : named → Named a ∧ isName name = true := by simpa only [Named] using hn
    rw [Glsl.lower, reading]
    exact (glsl_lower hcolor a (by simpa only [Proper] using h) fun h ↦ (hna h).1).member
      fun h ↦ (hna h).2
  | .index a i, h, hn => by
    have hai : Proper a ∧ Proper i := by simpa only [Proper] using h
    have hnai : named → Named a ∧ Named i := by simpa only [Named] using hn
    rw [Glsl.lower, reading]
    exact (glsl_lower hcolor a hai.1 fun h ↦ (hnai h).1).index
      (glsl_lower hcolor i hai.2 fun h ↦ (hnai h).2)

theorem glsl_lowerAll (hcolor : named → isName color = true) : ∀ es : List Expr, ProperAll es →
    (named → NamedAll es) →
    YieldsAll named True (Glsl.lowerAll (glslContext color location) es)
      (readings (glsl color) es)
  | [], _, _ => by
    rw [Glsl.lowerAll, readings]
    exact gives_ok writtenAll_nil
  | e :: es, h, hn => by
    have hes : Proper e ∧ ProperAll es := by simpa only [ProperAll] using h
    have hnes : named → Named e ∧ NamedAll es := by simpa only [NamedAll] using hn
    rw [Glsl.lowerAll, readings]
    exact (glsl_lower hcolor e hes.1 fun h ↦ (hnes h).1).cons
      (glsl_lowerAll hcolor es hes.2 fun h ↦ (hnes h).2)

end

end Glsl

/-! ### Writing WGSL -/

section Wgsl

variable {named : Prop} (place : Wgsl.Place)

/-- Outside helpers all handles can be written. -/
def OutsideHelpers : Prop :=
  ∀ stage, place ≠ .helper stage

theorem written_fragmentInput {name : String} (hname : named → isName name = true) :
    Written named (Wgsl.fragmentInput place name) (fieldOf (inputStruct place) name) := by
  have hinput : Written named (.word "input") (.word "input") := Written.ofName fun _ ↦ by decide
  rcases place with _ | ⟨_ | ⟨_ | _, _, _⟩⟩ | _
  · exact Written.ofName hname
  · exact Written.ofName hname
  · exact Written.ofName hname
  · exact hinput.member hname
  · exact Written.ofName hname

theorem written_counter {name : String} (hname : isName name = true) :
    Written named (.call "i32" [.word name]) (.call "i32" [.word name]) :=
  (Written.ofName fun _ ↦ hname).single.call fun _ ↦ (alone_of_isName (by decide)).called

theorem written_builtinExpr (hplace : named → NamedPlace place) (b : Builtin) :
    Written named (Wgsl.builtinExpr place b) (wgslBuiltin place b) := by
  have hword : ∀ {name}, isName name = true → Written named (.word name) (.word name) :=
    fun hname ↦ Written.ofName fun _ ↦ hname
  cases b with
  | vertexId => exact written_counter (by decide)
  | instanceId => exact written_counter (by decide)
  | position =>
      cases place with
      | entry flow => exact (hword (by decide)).member fun _ ↦ by decide
      | _ => exact hword (by decide)
  | pointSize => exact hword (by decide)
  | fragCoord => exact written_fragmentInput place fun _ ↦ by decide
  | frontFacing => exact written_fragmentInput place fun _ ↦ by decide
  | fragColor =>
      rcases place with _ | ⟨_ | ⟨_, _, color⟩⟩ | _
      · exact hword (by decide)
      · exact hword (by decide)
      · exact (hword (by decide)).member hplace
      · exact hword (by decide)

theorem written_varyingExpr {name : String} (hname : named → isName name = true) :
    Written named (Wgsl.varyingExpr place name) (fieldOf (varyingStruct place) name) := by
  rcases place with _ | ⟨_ | _⟩ | _
  · exact Written.ofName hname
  · exact (Written.ofName fun _ ↦ by decide).member hname
  · exact (Written.ofName fun _ ↦ by decide).member hname
  · exact Written.ofName hname

theorem written_outputExpr {name : String} (hname : named → isName name = true) :
    Written named (Wgsl.outputExpr place name) (fieldOf (resultStruct "frag_out" place) name) := by
  cases place with
  | entry flow => exact (Written.ofName fun _ ↦ by decide).member hname
  | _ => exact Written.ofName hname

/-- A stage value is written as given, unless a helper mentions it. -/
theorem yields_stageValue (what : String) {code : Code.Expr} {t : Tree}
    (h : Written named code t) :
    Yields named (OutsideHelpers place)
      (do
        Wgsl.checkStageValue place what
        return code)
      t := by
  cases place with
  | helper stage => exact ⟨fun _ hcode ↦ (by cases hcode), fun hsure ↦ (hsure stage rfl).elim⟩
  | _ => exact h.yields

theorem wgsl_lowerHandle (hplace : named → NamedPlace place) {h : Handle}
    (hnamed : named → NamedHandle h) :
    Yields named (OutsideHelpers place) (Wgsl.lowerHandle place h) (wgslHandle place h) := by
  have hname : (∀ b, h ≠ .builtin b) →
      Written named (.word (valueName h)) (.word (valueName h)) :=
    fun hb ↦ Written.ofName fun hn ↦ isName_valueName (hnamed hn) hb
  cases h with
  | builtin b => exact yields_stageValue place _ (written_builtinExpr place hplace b)
  | varying n => exact yields_stageValue place _ (written_varyingExpr place hnamed)
  | output n => exact yields_stageValue place _ (written_outputExpr place hnamed)
  | vertexAttribute n => exact yields_stageValue place n (hname (by simp))
  | _ => exact (hname (by simp)).yields

theorem namesLevel_iff : namesLevel place = true ↔ place.stage? = some .vertex := by
  rcases place with _ | ⟨_ | _⟩ | ⟨_ | _⟩ <;>
    simp [namesLevel, Wgsl.Place.stage?, Wgsl.Flow.stage]

theorem written_sample (kind : SamplerKind) {texture : String}
    (htexture : named → isName texture = true) {coords : Code.Expr} {t : Tree}
    (h : Written named coords t) :
    Written named (Wgsl.sample place kind (.word texture) coords)
      (wgslSample place kind [.word texture, t]) := by
  have hcalled : ∀ {name}, isName name = true → named → Called name :=
    fun hname _ ↦ (alone_of_isName hname).called
  have hobject : Written named (.suffixed (.word texture) "_sampler")
      (.word (texture ++ "_sampler")) :=
    Written.suffixed fun hn ↦ isName_sampler (htexture hn)
  have hlayer : Written named (.call "i32" [.call "round" [.member coords "z"]])
      (.call "i32" [.call "round" [.member t "z"]]) := by
    have hround : Written named (.call "round" [.member coords "z"])
        (.call "round" [.member t "z"]) :=
      (h.member fun _ ↦ by decide).single.call (hcalled (by decide))
    exact hround.single.call (hcalled (by decide))
  have hlevel : Written named (.word "0.0") (.word "0.0") :=
    Written.ofWord fun _ ↦ alone_text ⟨0⟩
  have hnames : ∀ {cs : List Code.Expr} {us : List Tree}, WrittenAll named cs us →
      WrittenAll named (.word texture :: .suffixed (.word texture) "_sampler" :: cs)
        (.word texture :: .word (texture ++ "_sampler") :: us) :=
    fun hcs ↦ (Written.ofName htexture).cons (hobject.cons hcs)
  have hcall : ∀ {cs : List Code.Expr} {us : List Tree}, WrittenAll named cs us →
      Written named (if place.stage? = some .vertex then
          .call "textureSampleLevel" (cs ++ [.word "0.0"]) else .call "textureSample" cs)
        (if namesLevel place then .call "textureSampleLevel" (us ++ [.word "0.0"])
          else .call "textureSample" us) := by
    intro cs us hcs
    simp only [namesLevel_iff]
    split
    · exact (hcs.append hlevel.single).call (hcalled (by decide))
    · exact hcs.call (hcalled (by decide))
  cases kind with
  | planeArray =>
      exact hcall (hnames ((h.member fun _ ↦ by decide).cons hlayer.single))
  | _ => exact hcall (hnames h.single)

theorem wgsl_operator {f : Intrinsic} (hf : isInfix f = true) {x y : Except Error Code.Expr}
    {t u : Tree} {sure : Prop} (hx : Yields named sure x t) (hy : Yields named sure y u) :
    Yields named sure (Wgsl.lowerCall place (.intrinsic f) [x, y]) (wgslIntrinsic f [t, u]) := by
  cases f with
  | mod | lessThan | lessThanEqual | greaterThan | greaterThanEqual | equal | notEqual =>
      exact hx.binary hy _
  | _ => cases hf

theorem wgsl_intrinsic {f : Intrinsic} {outcomes : List (Except Error Code.Expr)}
    {ts : List Tree} {sure : Prop} (h : List.Forall₂ (Yields named sure) outcomes ts)
    (htwo : isInfix f = true → ts.length = 2) (hnot : f = .notEach → ts.length = 1) :
    Yields named sure (Wgsl.lowerCall place (.intrinsic f) outcomes) (wgslIntrinsic f ts) := by
  by_cases hf : isInfix f = true
  · obtain ⟨t, u, rfl⟩ := List.length_eq_two.mp (htwo hf)
    obtain ⟨x, _, hx, hrest, rfl⟩ := List.forall₂_cons_right_iff.mp h
    obtain ⟨y, _, hy, hnil, rfl⟩ := List.forall₂_cons_right_iff.mp hrest
    obtain rfl := List.forall₂_nil_right_iff.mp hnil
    exact wgsl_operator place hf hx hy
  · by_cases hn : f = .notEach
    · subst hn
      obtain ⟨t, rfl⟩ := List.length_eq_one_iff.mp (hnot rfl)
      obtain ⟨x, _, hx, hnil, rfl⟩ := List.forall₂_cons_right_iff.mp h
      obtain rfl := List.forall₂_nil_right_iff.mp hnil
      exact hx.unary .not
    · have hcall : ∀ {name}, isName name = true →
          Yields named sure (do return .call name (← outcomes.mapM id)) (.call name ts) :=
        fun hname ↦ (yieldsAll_mapM h).call fun _ ↦ (alone_of_isName hname).called
      cases f with
      | mod | lessThan | lessThanEqual | greaterThan | greaterThanEqual | equal | notEqual =>
          exact (hf rfl).elim
      | notEach => exact (hn rfl).elim
      | _ => exact hcall (by decide)

theorem wgsl_call {callee : Callee} {args : List Expr} (hproper : ProperCall callee args)
    (hnamed : named → NamedCallee callee ∧ NamedAll args)
    (h : List.Forall₂ (Yields named (OutsideHelpers place)) (Wgsl.lowerEach place args)
      (readings (wgsl place) args)) :
    Yields named (OutsideHelpers place)
      (Wgsl.lowerCall place callee (Wgsl.lowerEach place args))
      (wgslCall place callee (readings (wgsl place) args)) := by
  have hlength := length_readings (wgsl place) args
  cases callee with
  | construct p =>
      have hspell : Called (Wgsl.primName p) := by
        rw [primName_wgsl]
        exact (called_wgslPrim p).2
      rw [wgslCall, ← primName_wgsl]
      exact (yieldsAll_mapM h).call fun _ ↦ hspell
  | intrinsic f =>
      apply wgsl_intrinsic place h
      · rw [hlength]
        exact hproper.1
      · rw [hlength]
        exact hproper.2
  | texture kind =>
      obtain ⟨name, coords, rfl⟩ := hproper
      have hname : named → isName name = true := by
        intro hn
        have hargs := (hnamed hn).2
        simp only [NamedAll, Named] at hargs
        exact hargs.1
      simp only [Wgsl.lowerEach, readings, List.forall₂_cons] at h ⊢
      exact h.2.1.bind fun _ hw ↦ (written_sample place kind hname hw).yields
  | texelFetch kind =>
      refine (yieldsAll_mapM h).bind fun codes hw ↦ ?_
      have hcodes : codes.isEmpty = false := by
        cases codes with
        | nil =>
            have hempty : (readings (wgsl place) args).length = 0 := by rw [← hw.tree]; rfl
            rw [hlength] at hempty
            exact (hproper (List.length_eq_zero_iff.mp hempty)).elim
        | cons c cs => rfl
      have hlevel : Written named (.word "0") (.word "0") := Written.ofWord fun _ ↦ alone_toString 0
      rw [hcodes]
      exact ((hw.append hlevel.single).call fun _ ↦ (alone_of_isName (by decide)).called).yields
  | helper name =>
      exact (yieldsAll_mapM h).call fun hn ↦ (alone_of_isName (hnamed hn).1).called

mutual

theorem wgsl_lower (hplace : named → NamedPlace place) : ∀ e : Expr, Proper e →
    (named → Named e) →
    Yields named (OutsideHelpers place) (Wgsl.lower place e) (reading (wgsl place) e)
  | .lit v, _, _ => by
    have hspell : ∀ p, Called (Wgsl.primName p) := by
      rw [primName_wgsl]
      exact fun p ↦ (called_wgslPrim p).2
    rw [Wgsl.lower, reading, show (wgsl place).primName = Wgsl.primName from primName_wgsl.symm]
    exact (written_literal hspell v).yields
  | .array t items, h, hn => by
    rw [Wgsl.lower, reading, show (wgsl place).typeName t = Wgsl.typeText (.ofTy t) from
      (typeText_wgsl t).symm]
    refine (yieldsAll_mapM (wgsl_lowerEach hplace items (by simpa only [Proper] using h)
      (by simpa only [Named] using hn))).call fun _ ↦ ?_
    rw [typeText_wgsl]
    exact called_wgslType t
  | .var h, _, hn => by
    rw [Wgsl.lower, reading]
    exact wgsl_lowerHandle place hplace (by simpa only [Named] using hn)
  | .unary op a, h, hn => by
    rw [Wgsl.lower, reading]
    exact (wgsl_lower hplace a (by simpa only [Proper] using h)
      (by simpa only [Named] using hn)).unary op
  | .binary op a b, h, hn => by
    have hab : Proper a ∧ Proper b := by simpa only [Proper] using h
    have hnab : named → Named a ∧ Named b := by simpa only [Named] using hn
    have hop : (wgsl place).operator op = Wgsl.lowerOp op := by cases op <;> rfl
    rw [Wgsl.lower, reading, hop]
    exact (wgsl_lower hplace a hab.1 fun h ↦ (hnab h).1).binary
      (wgsl_lower hplace b hab.2 fun h ↦ (hnab h).2) _
  | .call callee args, h, hn => by
    have hargs : ProperCall callee args ∧ ProperAll args := by simpa only [Proper] using h
    have hnargs : named → NamedCallee callee ∧ NamedAll args := by simpa only [Named] using hn
    rw [Wgsl.lower, reading]
    exact wgsl_call place hargs.1 hnargs
      (wgsl_lowerEach hplace args hargs.2 fun h ↦ (hnargs h).2)
  | .swizzle a channels, h, hn => by
    have ha := wgsl_lower hplace a (by simpa only [Proper] using h) (by simpa only [Named] using hn)
    have haccess : named → isName (swizzleName channels) = true :=
      fun _ ↦ isName_swizzleName channels
    rw [Wgsl.lower, reading, isFragCoordY_eq, text_swizzle]
    cases hy : isVertical a channels with
    | false =>
        rw [show (wgsl place).negates a channels = false from hy]
        exact ha.member haccess
    | true =>
        rw [show (wgsl place).negates a channels = true from hy]
        exact ha.bind fun _ hw ↦ ((hw.member haccess).unary .neg).yields
  | .field a name, h, hn => by
    have hna : named → Named a ∧ isName name = true := by simpa only [Named] using hn
    rw [Wgsl.lower, reading]
    exact (wgsl_lower hplace a (by simpa only [Proper] using h) fun h ↦ (hna h).1).member
      fun h ↦ (hna h).2
  | .index a i, h, hn => by
    have hai : Proper a ∧ Proper i := by simpa only [Proper] using h
    have hnai : named → Named a ∧ Named i := by simpa only [Named] using hn
    rw [Wgsl.lower, reading]
    exact (wgsl_lower hplace a hai.1 fun h ↦ (hnai h).1).index
      (wgsl_lower hplace i hai.2 fun h ↦ (hnai h).2)

theorem wgsl_lowerEach (hplace : named → NamedPlace place) : ∀ es : List Expr, ProperAll es →
    (named → NamedAll es) →
    List.Forall₂ (Yields named (OutsideHelpers place)) (Wgsl.lowerEach place es)
      (readings (wgsl place) es)
  | [], _, _ => by
    rw [Wgsl.lowerEach, readings]
    exact .nil
  | e :: es, h, hn => by
    have hes : Proper e ∧ ProperAll es := by simpa only [ProperAll] using h
    have hnes : named → Named e ∧ NamedAll es := by simpa only [NamedAll] using hn
    rw [Wgsl.lowerEach, readings]
    exact .cons (wgsl_lower hplace e hes.1 fun h ↦ (hnes h).1)
      (wgsl_lowerEach hplace es hes.2 fun h ↦ (hnes h).2)

end

end Wgsl

/-! ### Written expressions -/

theorem yields_glsl (color : String) (location : String → Nat) {e : Expr} (hproper : Proper e) :
    Yields (Named e ∧ isName color = true) True (Glsl.lower ⟨.es300, .word color, location⟩ e)
      (reading (glsl color) e) :=
  glsl_lower location And.right e hproper And.left

theorem yields_wgsl (place : Wgsl.Place) {e : Expr} (hproper : Proper e) :
    Yields (Named e ∧ NamedPlace place) (OutsideHelpers place) (Wgsl.lower place e)
      (reading (wgsl place) e) :=
  wgsl_lower place And.right e hproper And.left

/-- The text that either language writes for an expression with proper calls and names is read as
the tree of the expression in that language, with nothing changed but the grouping of operands whose
parentheses are left out.  Only helpers in WGSL refuse some expressions, for the stage values in
them. -/
theorem parse_written_lower (e : Expr) (hproper : Proper e) (hnamed : Named e) :
    (∀ color location, isName color = true →
      ∃ code, Glsl.lower ⟨.es300, .word color, location⟩ e = .ok code ∧
        read code.text = some (lexemes code.tokens) ∧
        parse (lexemes code.tokens) = some (reading (glsl color) e).regroup) ∧
    (∀ place, NamedPlace place →
      (∀ code, Wgsl.lower place e = .ok code → read code.text = some (lexemes code.tokens) ∧
        parse (lexemes code.tokens) = some (reading (wgsl place) e).regroup) ∧
      ((∀ stage, place ≠ .helper stage) → ∃ code, Wgsl.lower place e = .ok code)) := by
  refine ⟨?_, ?_⟩
  · intro color location hcolor
    have hyields := yields_glsl color location hproper
    obtain ⟨code, hcode⟩ := hyields.succeeds trivial
    have hwritten := hyields.written code hcode
    exact ⟨code, hcode, hwritten.read ⟨hnamed, hcolor⟩, hwritten.parse⟩
  · intro place hplace
    have hyields := yields_wgsl place hproper
    refine ⟨?_, hyields.succeeds⟩
    intro code hcode
    have hwritten := hyields.written code hcode
    exact ⟨hwritten.read ⟨hnamed, hplace⟩, hwritten.parse⟩

/-- `-a * mod(b, c)`. -/
def negatedProduct : Expr :=
  .binary .mul (.unary .neg (.var (.uniform "a")))
    (.call (.intrinsic .mod) [.var (.uniform "b"), .var (.uniform "c")])

/-- A remainder is a call in GLSL; in WGSL it is an operation, and is regrouped as a factor. -/
theorem parse_written_lower_scaled_mod :
    Proper negatedProduct ∧ Named negatedProduct ∧ isName "gl_FragColor" = true ∧
    (∃ code, Glsl.lower .standalone negatedProduct = .ok code ∧ code.text = "-a * mod(b, c)" ∧
      (read code.text).bind parse = some (.binary .mul (.unary .neg (.word "a"))
        (.call "mod" [.word "b", .word "c"]))) ∧
    ∃ code, Wgsl.lower .standalone negatedProduct = .ok code ∧ code.text = "-a * b % c" ∧
      (read code.text).bind parse = some (.binary .rem
        (.binary .mul (.unary .neg (.word "a")) (.word "b")) (.word "c")) := by
  have hproper : Proper negatedProduct := by
    simp [negatedProduct, Proper, ProperAll, ProperCall]
  have hnamed : Named negatedProduct := by
    simp only [negatedProduct, Named, NamedAll, NamedHandle, NamedCallee]
    decide
  have hcolor : isName "gl_FragColor" = true := by decide
  obtain ⟨hglsl, hwgsl⟩ := parse_written_lower _ hproper hnamed
  obtain ⟨code, hcode, hread, hparse⟩ := hglsl "gl_FragColor" (fun _ ↦ 0) hcolor
  obtain ⟨hall, hsucceeds⟩ := hwgsl .standalone trivial
  obtain ⟨code', hcode'⟩ := hsucceeds (by simp)
  obtain ⟨hread', hparse'⟩ := hall code' hcode'
  obtain rfl := Except.ok.inj (show Except.ok _ = Except.ok code from hcode)
  obtain rfl := Except.ok.inj (show Except.ok _ = Except.ok code' from hcode')
  refine ⟨hproper, hnamed, hcolor, ⟨_, hcode, by decide +kernel, ?_⟩, _, hcode',
    by decide +kernel, ?_⟩
  · rw [hread]
    exact hparse
  · rw [hread']
    exact hparse'

end Shading.Reading
