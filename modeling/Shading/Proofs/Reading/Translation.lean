import Shading.Proofs.Reading.Targets

/-!
# One expression in both languages

The GLSL text and the WGSL text of an expression, compared as trees.  A dictionary takes trees of
GLSL to trees of WGSL: it replaces the names of types and functions, and a call of a function that
is an operator in WGSL becomes an operation.

Main statement: the WGSL text of an expression is read as the translated tree of its GLSL text,
regrouped.  The regrouping changes something exactly if a product of the GLSL tree has a remainder
as its right factor, since a remainder is a call in GLSL and a factor of its own in WGSL.
-/

namespace Shading.Reading

/-! ### Grouped trees -/

namespace Tree

mutual

/-- No right operand is one whose parentheses are left out. -/
def Grouped : Tree → Prop
  | word _ => True
  | unary _ a => Grouped a
  | binary op a b => Grouped a ∧ Grouped b ∧ b.isBy (regroups op) = false
  | call _ args => GroupedAll args
  | member a _ => Grouped a
  | index a i => Grouped a ∧ Grouped i

def GroupedAll : List Tree → Prop
  | [] => True
  | t :: ts => Grouped t ∧ GroupedAll ts

end

theorem Grouped.graft {op : BinaryOp} {x y : Tree} (hx : Grouped x) (hy : Grouped y) :
    Grouped (graft op x y) := by
  fun_induction Tree.graft op x y with
  | case1 o a b ho ih =>
      obtain ⟨ha, hb, hby⟩ := by simpa only [Grouped] using hy
      rw [Grouped]
      exact ⟨ih ha, hb, hby⟩
  | case2 o a b ho =>
      rw [Grouped]
      exact ⟨hx, hy, by simpa [isBy] using ho⟩
  | case3 t ht =>
      have hby : t.isBy (regroups op) = false := by
        cases t with
        | binary o a b => exact (ht o a b rfl).elim
        | _ => rfl
      rw [Grouped]
      exact ⟨hx, hy, hby⟩

mutual

theorem grouped_regroup : ∀ t : Tree, Grouped t.regroup
  | word _ => by simp only [regroup, Grouped]
  | unary _ a => by
    rw [regroup, Grouped]
    exact grouped_regroup a
  | binary _ a b => by
    rw [regroup]
    exact (grouped_regroup a).graft (grouped_regroup b)
  | call _ args => by
    rw [regroup, Grouped]
    exact groupedAll_regroupAll args
  | member a _ => by
    rw [regroup, Grouped]
    exact grouped_regroup a
  | index a i => by
    rw [regroup, Grouped]
    exact ⟨grouped_regroup a, grouped_regroup i⟩

theorem groupedAll_regroupAll : ∀ ts : List Tree, GroupedAll (regroupAll ts)
  | [] => by simp only [regroupAll, GroupedAll]
  | t :: ts => by
    rw [regroupAll, GroupedAll]
    exact ⟨grouped_regroup t, groupedAll_regroupAll ts⟩

end

mutual

theorem regroup_of_grouped : ∀ t : Tree, Grouped t → t.regroup = t
  | word _, _ => by rw [regroup]
  | unary op a, h => by
    rw [regroup, regroup_of_grouped a (by simpa only [Grouped] using h)]
  | binary op a b, h => by
    obtain ⟨ha, hb, hby⟩ := by simpa only [Grouped] using h
    rw [regroup, regroup_of_grouped a ha, regroup_of_grouped b hb, graft_of_isBy_eq_false hby]
  | call callee args, h => by
    rw [regroup, regroupAll_of_groupedAll args (by simpa only [Grouped] using h)]
  | member a name, h => by
    rw [regroup, regroup_of_grouped a (by simpa only [Grouped] using h)]
  | index a i, h => by
    obtain ⟨ha, hi⟩ := by simpa only [Grouped] using h
    rw [regroup, regroup_of_grouped a ha, regroup_of_grouped i hi]

theorem regroupAll_of_groupedAll : ∀ ts : List Tree, GroupedAll ts → regroupAll ts = ts
  | [], _ => by rw [regroupAll]
  | t :: ts, h => by
    obtain ⟨ht, hts⟩ := by simpa only [GroupedAll] using h
    rw [regroupAll, regroup_of_grouped t ht, regroupAll_of_groupedAll ts hts]

end

/-- Regrouping changes exactly the trees that are not grouped. -/
theorem regroup_eq_self_iff (t : Tree) : t.regroup = t ↔ t.Grouped :=
  ⟨fun h ↦ h ▸ grouped_regroup t, regroup_of_grouped t⟩

/-- A chain that goes on with an operator of its kind is grafted as a whole. -/
theorem graft_graft_of_regroups {op o : BinaryOp} (h : regroups op o = true) (x y z : Tree) :
    graft o (graft op x y) z = graft op x (graft o y z) := by
  by_cases ho : o = op
  · subst ho
    exact graft_graft h x y z
  · -- Only `+` and `*` regroup, so an operator of the chain other than `op` leaves `z` alone.
    have hz : ∀ left, graft o left z = binary o left z := by
      refine fun left ↦ graft_of_regroups_eq_false (fun o' ↦ ?_) left z
      cases op <;> cases o <;> first | rfl | exact (ho rfl).elim | cases h
    rw [hz, hz, graft_binary h]

end Tree

/-! ### The dictionary -/

/-- The WGSL names of the types and functions of GLSL whose names differ. -/
def wgslWord : String → String
  | "int" => "i32"
  | "ivec2" => "vec2<i32>"
  | "ivec3" => "vec3<i32>"
  | "ivec4" => "vec4<i32>"
  | "uint" => "u32"
  | "uvec2" => "vec2<u32>"
  | "uvec3" => "vec3<u32>"
  | "uvec4" => "vec4<u32>"
  | "float" => "f32"
  | "vec2" => "vec2<f32>"
  | "vec3" => "vec3<f32>"
  | "vec4" => "vec4<f32>"
  | "bvec2" => "vec2<bool>"
  | "bvec3" => "vec3<bool>"
  | "bvec4" => "vec4<bool>"
  | "mat2" => "mat2x2<f32>"
  | "mat3" => "mat3x3<f32>"
  | "mat4" => "mat4x4<f32>"
  | "mat4x3" => "mat4x3<f32>"
  | "inversesqrt" => "inverseSqrt"
  | "faceforward" => "faceForward"
  | "dFdx" => "dpdx"
  | "dFdy" => "dpdy"
  | s => s

/-- A name of GLSL in WGSL.  An array type of GLSL has its dimensions in brackets after it, the
outermost first; in WGSL the elements of the outermost array come first. -/
def wgslText (name : String) : String :=
  match name.toList.splitOn '[' with
  | [] => name
  | base :: dims =>
    dims.foldr (fun dim element ↦ "array<" ++ element ++ ", " ++ String.ofList dim.dropLast ++ ">")
      (wgslWord (String.ofList base))

/-- The functions of GLSL that are operators on two operands in WGSL. -/
def operatorOf? : String → Option BinaryOp
  | "mod" => some .rem
  | "lessThan" => some .lt
  | "lessThanEqual" => some .le
  | "greaterThan" => some .gt
  | "greaterThanEqual" => some .ge
  | "equal" => some .eq
  | "notEqual" => some .ne
  | _ => none

/-- A call of a function of GLSL in WGSL. -/
def translateCall (callee : String) : List Tree → Tree
  | [a] => if callee = "not" then .unary .not a else .call (wgslText callee) [a]
  | [a, b] =>
    match operatorOf? callee with
    | some op => .binary op a b
    | none => .call (wgslText callee) [a, b]
  | args => .call (wgslText callee) args

namespace Tree

mutual

/-- A tree of GLSL in WGSL, where `helpers` are functions of the program itself. -/
def translate (helpers : List String) : Tree → Tree
  | word s => word s
  | unary op a => unary op (translate helpers a)
  | binary op a b =>
    binary (if op = .xor then .ne else op) (translate helpers a) (translate helpers b)
  | call callee args =>
    if callee ∈ helpers then call callee (translateAll helpers args)
    else translateCall callee (translateAll helpers args)
  | member a name => member (translate helpers a) name
  | index a i => index (translate helpers a) (translate helpers i)

def translateAll (helpers : List String) : List Tree → List Tree
  | [] => []
  | t :: ts => translate helpers t :: translateAll helpers ts

end

/-- Whether a tree is a remainder, which GLSL writes as a call. -/
def isRemainder (helpers : List String) : Tree → Bool
  | call callee [_, _] => callee = "mod" && callee ∉ helpers
  | _ => false

mutual

/-- Whether somewhere a remainder is the right factor of a product. -/
def ScalesRemainder (helpers : List String) : Tree → Prop
  | word _ => False
  | unary _ a => ScalesRemainder helpers a
  | binary op a b =>
    (op = .mul ∧ b.isRemainder helpers = true) ∨ ScalesRemainder helpers a ∨
      ScalesRemainder helpers b
  | call _ args => ScalesRemainderAny helpers args
  | member a _ => ScalesRemainder helpers a
  | index a i => ScalesRemainder helpers a ∨ ScalesRemainder helpers i

def ScalesRemainderAny (helpers : List String) : List Tree → Prop
  | [] => False
  | t :: ts => ScalesRemainder helpers t ∨ ScalesRemainderAny helpers ts

end

end Tree

/-! ### Names -/

theorem wgslText_of_notMem {name : String} (h : '[' ∉ name.toList) :
    wgslText name = wgslWord name := by
  rw [wgslText, List.splitOn_eq_singleton h]
  simp

/-- Parts that hold no separator are found again. -/
theorem splitOn_append_flatMap {sep : Char} {part : Nat → List Char} (hpart : ∀ n, sep ∉ part n)
    {head : List Char} (hhead : sep ∉ head) (ns : List Nat) :
    (head ++ ns.flatMap fun n ↦ sep :: part n).splitOn sep = head :: ns.map part := by
  induction ns generalizing head with
  | nil => simpa using List.splitOn_eq_singleton hhead
  | cons n ns ih =>
      have hfirst : ∀ c ∈ head, (c == sep) = false := by
        intro c hc
        simpa using fun hsep : c = sep ↦ hhead (hsep ▸ hc)
      rw [List.flatMap_cons, List.cons_append, List.splitOn,
        List.splitOnP_append_cons_of_forall_mem hfirst _ (beq_self_eq_true sep), ← List.splitOn,
        ih (hpart n), List.map_cons]

theorem splitOn_dimsText {base : List Char} (hbase : '[' ∉ base) (dims : List Nat) :
    (base ++ (Glsl.dimsText dims).toList).splitOn '[' =
      base :: dims.map fun n ↦ Nat.toDigits 10 n ++ [']'] := by
  have htext : (Glsl.dimsText dims).toList =
      dims.flatMap fun n ↦ '[' :: (Nat.toDigits 10 n ++ [']']) := by
    induction dims with
    | nil => rfl
    | cons n dims ih => simpa [Glsl.dimsText, String.join_cons] using ih
  have hdim : ∀ n, '[' ∉ Nat.toDigits 10 n ++ [']'] := by
    intro n
    simp [notMem_toDigits]
  rw [htext, splitOn_append_flatMap hdim hbase]

theorem bracket_notMem_primName (p : Prim) : '[' ∉ (Glsl.primName p).toList := by
  rcases p with ⟨s, d⟩ | m
  · cases s <;> cases d <;> decide
  · cases m <;> decide

theorem wgslWord_primName (p : Prim) : wgslWord (Glsl.primName p) = Wgsl.primName p := by
  rcases p with ⟨s, d⟩ | m
  · cases s <;> cases d <;> rfl
  · cases m <;> rfl

/-- The dictionary has the primitive types and all arrays of them. -/
theorem wgslText_typeText (t : Ty) :
    wgslText (Glsl.typeText (.ofTy t)) = Wgsl.typeText (.ofTy t) := by
  have htext : (Glsl.typeText (.ofTy t)).toList =
      (Glsl.primName t.prim).toList ++ (Glsl.dimsText t.dims).toList :=
    String.toList_append
  have harray : ∀ dims : List Nat, (dims.map fun n ↦ Nat.toDigits 10 n ++ [']']).foldr
      (fun dim element ↦ "array<" ++ element ++ ", " ++ String.ofList dim.dropLast ++ ">")
      (Wgsl.primName t.prim) = Wgsl.arrayText (Wgsl.primName t.prim) dims := by
    intro dims
    induction dims with
    | nil => rfl
    | cons n dims ih =>
        rw [List.map_cons, List.foldr_cons, ih, List.dropLast_concat, Wgsl.arrayText]
        rfl
  rw [wgslText, htext, splitOn_dimsText (bracket_notMem_primName t.prim)]
  simp only [String.ofList_toList, wgslWord_primName, harray]
  rfl

theorem wgslText_primName (p : Prim) : wgslText (Glsl.primName p) = Wgsl.primName p := by
  rw [wgslText_of_notMem (bracket_notMem_primName p), wgslWord_primName]

theorem wgslText_intrinsicName {f : Intrinsic} (hoperator : isInfix f = false)
    (hnot : f ≠ .notEach) : wgslText (Glsl.intrinsicName f) = wgslFunction f := by
  have hbracket : '[' ∉ (Glsl.intrinsicName f).toList := by cases f <;> decide
  rw [wgslText_of_notMem hbracket]
  cases f <;> first | rfl | exact (hnot rfl).elim | cases hoperator

/-- A name of GLSL that stays the name of a call in WGSL. -/
def NamesCall (name : String) : Prop :=
  name ≠ "not" ∧ operatorOf? name = none

theorem NamesCall.translateCall {name : String} (h : NamesCall name) (ts : List Tree) :
    translateCall name ts = .call (wgslText name) ts := by
  unfold Reading.translateCall
  split
  · rw [if_neg h.1]
  · rw [h.2]
  · rfl

theorem namesCall_primName (p : Prim) : NamesCall (Glsl.primName p) := by
  rcases p with ⟨s, d⟩ | m
  · cases s <;> cases d <;> exact ⟨by decide, rfl⟩
  · cases m <;> exact ⟨by decide, rfl⟩

theorem namesCall_of_bracket {name : String} (h : '[' ∈ name.toList) : NamesCall name := by
  refine ⟨?_, ?_⟩
  · rintro rfl
    simp at h
  · unfold operatorOf?
    split <;> first | rfl | simp at h

theorem namesCall_typeText (t : Ty) : NamesCall (Glsl.typeText (.ofTy t)) := by
  obtain ⟨p, dims⟩ := t
  cases dims with
  | nil => simpa [Glsl.typeText, Glsl.dimsText, Code.TypeName.ofTy, Glsl.baseText] using
      namesCall_primName p
  | cons n dims =>
      apply namesCall_of_bracket
      simp [Glsl.typeText, Glsl.dimsText, Code.TypeName.ofTy, String.join_cons]

theorem namesCall_intrinsicName {f : Intrinsic} (hoperator : isInfix f = false)
    (hnot : f ≠ .notEach) : NamesCall (Glsl.intrinsicName f) := by
  cases f <;> first | exact ⟨by decide, rfl⟩ | exact (hnot rfl).elim | cases hoperator

theorem translateCall_intrinsicName {f : Intrinsic} {ts : List Tree}
    (htwo : isInfix f = true → ts.length = 2) (hnot : f = .notEach → ts.length = 1) :
    translateCall (Glsl.intrinsicName f) ts = wgslIntrinsic f ts := by
  cases hoperator : isInfix f with
  | true =>
      obtain ⟨a, b, rfl⟩ := List.length_eq_two.mp (htwo hoperator)
      cases f <;> first | rfl | cases hoperator
  | false =>
      by_cases hn : f = .notEach
      · subst hn
        obtain ⟨a, rfl⟩ := List.length_eq_one_iff.mp (hnot rfl)
        rfl
      · rw [(namesCall_intrinsicName hoperator hn).translateCall,
          wgslText_intrinsicName hoperator hn]
        cases f <;> first | rfl | exact (hn rfl).elim | cases hoperator

/-! ### Translation of readings -/

/-- A value that both languages write as its name: not a built-in value, and a stage value only
outside functions. -/
def TranslatableHandle (place : Wgsl.Place) : Handle → Prop
  | .builtin _ => False
  | .varying _ => place = .standalone
  | .output _ => place = .standalone
  | _ => True

/-- No texture access; `helpers` tells the helpers from the functions of the language. -/
def TranslatableCallee (helpers : List String) : Callee → Prop
  | .construct p => Glsl.primName p ∉ helpers
  | .intrinsic f => Glsl.intrinsicName f ∉ helpers
  | .texture _ => False
  | .texelFetch _ => False
  | .helper name => name ∈ helpers

mutual

/-- An expression without built-in values and texture accesses.  Its helpers are among `helpers`,
and no type or function of the language that it names is. -/
def Translatable (place : Wgsl.Place) (helpers : List String) : Expr → Prop
  | .lit v => v.prim.isScalar = true ∨ Glsl.primName v.prim ∉ helpers
  | .array t items => Glsl.typeText (.ofTy t) ∉ helpers ∧ TranslatableAll place helpers items
  | .var h => TranslatableHandle place h
  | .unary _ a => Translatable place helpers a
  | .binary _ a b => Translatable place helpers a ∧ Translatable place helpers b
  | .call callee args => TranslatableCallee helpers callee ∧ TranslatableAll place helpers args
  | .swizzle a _ => Translatable place helpers a
  | .field a _ => Translatable place helpers a
  | .index a i => Translatable place helpers a ∧ Translatable place helpers i

def TranslatableAll (place : Wgsl.Place) (helpers : List String) : List Expr → Prop
  | [] => True
  | e :: es => Translatable place helpers e ∧ TranslatableAll place helpers es

end

section Readings

variable (color : String) (place : Wgsl.Place) (helpers : List String)

theorem translateAll_eq_map (ts : List Tree) :
    Tree.translateAll helpers ts = ts.map (Tree.translate helpers) := by
  induction ts with
  | nil => rfl
  | cons t ts ih => simp only [Tree.translateAll, ih, List.map_cons]

theorem translate_signedTree (negative : Bool) (magnitude : String) :
    (signedTree negative magnitude).translate helpers = signedTree negative magnitude := by
  cases negative <;> simp [signedTree, Tree.translate]

/-- The components of a literal are numbers and truth values, which both languages write alike. -/
theorem translate_component (v : Literal) :
    ∀ t ∈ componentTrees v, t.translate helpers = t := by
  intro t ht
  cases v <;> simp only [componentTrees, List.mem_map] at ht <;> obtain ⟨x, -, rfl⟩ := ht
  · exact translate_signedTree helpers _ _
  · simp only [Tree.translate]
  · exact translate_signedTree helpers _ _
  · simp only [Tree.translate]
  · exact translate_signedTree helpers _ _

theorem translateAll_componentTrees (v : Literal) :
    Tree.translateAll helpers (componentTrees v) = componentTrees v := by
  rw [translateAll_eq_map]
  exact (List.map_congr_left (translate_component helpers v)).trans (List.map_id _)

theorem exists_component {v : Literal} (h : v.prim.isScalar = true) :
    ∃ c, componentTrees v = [c] := by
  have hone : ∀ {α : Type} (same : α → α → Bool) {s : Scalar} {d : Dim} (xs : Vector α d.size),
      Prim.isScalar (.vector s d) = true → (shown same xs.toList).length = 1 := by
    intro α same s d xs hd
    cases d with
    | one =>
        obtain ⟨x, hx⟩ := List.length_eq_one_iff.mp xs.length_toList
        simp [hx, shown]
    | _ => cases hd
  refine List.length_eq_one_iff.mp ?_
  cases v with
  | matrix m columns => cases h
  | _ => exact (List.length_map _).trans (hone _ _ h)

theorem translate_literalTree {v : Literal}
    (h : v.prim.isScalar = true ∨ Glsl.primName v.prim ∉ helpers) :
    (literalTree glslPrim v).translate helpers = literalTree wgslPrim v := by
  rw [← primName_glsl, ← primName_wgsl]
  cases hscalar : v.prim.isScalar with
  | true =>
      obtain ⟨c, hc⟩ := exists_component hscalar
      simp only [literalTree, hscalar, hc]
      exact translate_component helpers v c (by simp [hc])
  | false =>
      have hname : Glsl.primName v.prim ∉ helpers := by simpa [hscalar] using h
      simp only [literalTree, hscalar]
      rw [Tree.translate, if_neg hname, (namesCall_primName v.prim).translateCall,
        wgslText_primName, translateAll_componentTrees]

theorem translate_handle {h : Handle} (hh : TranslatableHandle place h) :
    (glslHandle color h).translate helpers = wgslHandle place h := by
  cases h with
  | builtin b => exact hh.elim
  | varying n =>
      obtain rfl : place = .standalone := hh
      rfl
  | output n =>
      obtain rfl : place = .standalone := hh
      rfl
  | _ => rfl

theorem negates_of_translatable {place : Wgsl.Place} {helpers : List String} {a : Expr}
    (h : Translatable place helpers a) (channels : Swizzle) :
    (wgsl place).negates a channels = false := by
  cases a with
  | var x =>
      cases x with
      | builtin b => simp only [Translatable, TranslatableHandle] at h
      | _ => rfl
  | _ => rfl

theorem translate_call {callee : Callee} {args : List Expr} {ts : List Tree}
    (hcallee : TranslatableCallee helpers callee) (hproper : ProperCall callee args)
    (hlength : ts.length = args.length) :
    (glslCall callee ts).translate helpers =
      wgslCall place callee (Tree.translateAll helpers ts) := by
  cases callee with
  | construct p =>
      rw [glslCall, wgslCall, ← primName_glsl, ← primName_wgsl, Tree.translate, if_neg hcallee,
        (namesCall_primName p).translateCall, wgslText_primName]
  | intrinsic f =>
      have hmap : (Tree.translateAll helpers ts).length = args.length := by
        rw [translateAll_eq_map, List.length_map, hlength]
      rw [glslCall, wgslCall, ← intrinsicName_glsl, Tree.translate, if_neg hcallee]
      exact translateCall_intrinsicName (hmap ▸ hproper.1) (hmap ▸ hproper.2)
  | texture kind => exact hcallee.elim
  | texelFetch kind => exact hcallee.elim
  | helper name =>
      rw [glslCall, Tree.translate, if_pos (show name ∈ helpers from hcallee), wgslCall]

mutual

/-- An expression is meant alike in both languages. -/
theorem translate_reading : ∀ e : Expr, Proper e → Translatable place helpers e →
    (reading (glsl color) e).translate helpers = reading (wgsl place) e
  | .lit v, _, h => by
    rw [reading, reading]
    exact translate_literalTree helpers (by simpa only [Translatable] using h)
  | .array t items, hp, h => by
    obtain ⟨hname, hitems⟩ := by simpa only [Translatable] using h
    rw [reading, reading, ← translate_readings items (by simpa only [Proper] using hp) hitems]
    change Tree.translate helpers (.call (glslType t) _) = .call (wgslType t) _
    rw [← typeText_glsl, ← typeText_wgsl, Tree.translate, if_neg hname,
      (namesCall_typeText t).translateCall, wgslText_typeText]
  | .var x, _, h => by
    rw [reading, reading]
    exact translate_handle color place helpers (by simpa only [Translatable] using h)
  | .unary op a, hp, h => by
    rw [reading, reading, Tree.translate, translate_reading a (by simpa only [Proper] using hp)
      (by simpa only [Translatable] using h)]
  | .binary op a b, hp, h => by
    obtain ⟨hpa, hpb⟩ := by simpa only [Proper] using hp
    obtain ⟨ha, hb⟩ := by simpa only [Translatable] using h
    rw [reading, reading, Tree.translate, translate_reading a hpa ha, translate_reading b hpb hb]
    rfl
  | .call callee args, hp, h => by
    obtain ⟨hcall, hpargs⟩ := by simpa only [Proper] using hp
    obtain ⟨hcallee, hargs⟩ := by simpa only [Translatable] using h
    rw [reading, reading, ← translate_readings args hpargs hargs]
    exact translate_call place helpers hcallee hcall (length_readings _ args)
  | .swizzle a channels, hp, h => by
    have ha : Translatable place helpers a := by simpa only [Translatable] using h
    have hy : (wgsl place).negates a channels = false := negates_of_translatable ha channels
    rw [reading, reading, hy, ← translate_reading a (by simpa only [Proper] using hp) ha]
    simp only [Tree.translate, Bool.false_eq_true, if_false, glsl]
  | .field a name, hp, h => by
    rw [reading, reading, Tree.translate, translate_reading a (by simpa only [Proper] using hp)
      (by simpa only [Translatable] using h)]
  | .index a i, hp, h => by
    obtain ⟨hpa, hpi⟩ := by simpa only [Proper] using hp
    obtain ⟨ha, hi⟩ := by simpa only [Translatable] using h
    rw [reading, reading, Tree.translate, translate_reading a hpa ha, translate_reading i hpi hi]

theorem translate_readings : ∀ es : List Expr, ProperAll es → TranslatableAll place helpers es →
    Tree.translateAll helpers (readings (glsl color) es) = readings (wgsl place) es
  | [], _, _ => by rw [readings, readings, Tree.translateAll]
  | e :: es, hp, h => by
    obtain ⟨hpe, hpes⟩ := by simpa only [ProperAll] using hp
    obtain ⟨he, hes⟩ := by simpa only [TranslatableAll] using h
    rw [readings, readings, Tree.translateAll, translate_reading e hpe he,
      translate_readings es hpes hes]

end

end Readings

/-! ### Translation and grouping -/

namespace Tree

/-- The exclusive or has no operands without parentheses, nor has the operator in its place. -/
theorem regroups_translated (op o : BinaryOp) :
    regroups (if op = .xor then .ne else op) (if o = .xor then .ne else o) = regroups op o := by
  cases op <;> cases o <;> rfl

theorem regroups_of_operatorOf? {callee : String} {op : BinaryOp}
    (h : operatorOf? callee = some op) (o : BinaryOp) : regroups op o = false := by
  unfold operatorOf? at h
  split at h <;> cases h <;> rfl

theorem grouped_translateCall_iff (callee : String) (ts : List Tree) :
    (translateCall callee ts).Grouped ↔ GroupedAll ts := by
  match ts with
  | [] => simp only [translateCall, Grouped]
  | [a] =>
      rw [translateCall]
      split <;> simp only [Grouped, GroupedAll, and_true]
  | [a, b] =>
      rw [translateCall]
      split
      · next op hop =>
        have hby : b.isBy (regroups op) = false := by
          cases b with
          | binary o x y => exact regroups_of_operatorOf? hop o
          | _ => rfl
        simp only [Grouped, GroupedAll, hby, and_true]
      · simp only [Grouped]
  | _ :: _ :: _ :: _ => simp only [translateCall, Grouped]

theorem regroup_translateCall_regroupAll (callee : String) (ts : List Tree) :
    (translateCall callee (regroupAll ts)).regroup = (translateCall callee ts).regroup := by
  have hregroup : ∀ t : Tree, t.regroup.regroup = t.regroup := fun t ↦
    regroup_of_grouped _ (grouped_regroup t)
  have hregroupAll : ∀ ts, regroupAll (regroupAll ts) = regroupAll ts := fun ts ↦
    regroupAll_of_groupedAll _ (groupedAll_regroupAll ts)
  match ts with
  | [] => rw [regroupAll]
  | [a] =>
      simp only [regroupAll, translateCall]
      split <;> simp only [regroup, regroupAll, hregroup]
  | [a, b] =>
      simp only [regroupAll, translateCall]
      split <;> simp only [regroup, regroupAll, hregroup]
  | _ :: _ :: _ :: _ => simp only [regroupAll, translateCall, regroup, hregroup, hregroupAll]

/-- What is grafted in the one language is grafted in the other. -/
theorem regroup_translate_graft (helpers : List String) (op : BinaryOp) (x y : Tree) :
    ((graft op x y).translate helpers).regroup =
      ((binary op x y).translate helpers).regroup := by
  fun_induction graft op x y with
  | case1 o a b ho ih =>
      simp only [translate, regroup] at ih ⊢
      rw [ih, graft_graft_of_regroups]
      rw [regroups_translated, ho]
  | case2 o a b ho => rfl
  | case3 t ht => rfl

mutual

theorem regroup_translate_regroup (helpers : List String) : ∀ t : Tree,
    (t.regroup.translate helpers).regroup = (t.translate helpers).regroup
  | word _ => by rw [regroup]
  | unary op a => by
    rw [regroup, translate, translate, regroup, regroup, regroup_translate_regroup helpers a]
  | binary op a b => by
    rw [regroup, regroup_translate_graft, translate, translate, regroup, regroup,
      regroup_translate_regroup helpers a, regroup_translate_regroup helpers b]
  | call callee args => by
    have hargs := regroupAll_translateAll_regroupAll helpers args
    rw [regroup, translate, translate]
    split
    · rw [regroup, regroup, hargs]
    · rw [← regroup_translateCall_regroupAll, hargs, regroup_translateCall_regroupAll]
  | member a name => by
    rw [regroup, translate, translate, regroup, regroup, regroup_translate_regroup helpers a]
  | index a i => by
    rw [regroup, translate, translate, regroup, regroup, regroup_translate_regroup helpers a,
      regroup_translate_regroup helpers i]

theorem regroupAll_translateAll_regroupAll (helpers : List String) : ∀ ts : List Tree,
    regroupAll (translateAll helpers (regroupAll ts)) = regroupAll (translateAll helpers ts)
  | [] => by rw [regroupAll]
  | t :: ts => by
    rw [regroupAll, translateAll, translateAll, regroupAll, regroupAll,
      regroup_translate_regroup helpers t, regroupAll_translateAll_regroupAll helpers ts]

end

/-- Of the functions that become operators only the remainder is a factor. -/
theorem isBy_translateCall (op : BinaryOp) (callee : String) (ts : List Tree) :
    (translateCall callee ts).isBy (regroups op) =
      (op = .mul && callee = "mod" && ts.length = 2) := by
  match ts with
  | [] => simp [translateCall, isBy]
  | [a] =>
      rw [translateCall]
      split <;> simp [isBy]
  | [a, b] =>
      rw [translateCall]
      split
      · next o ho =>
        unfold operatorOf? at ho
        split at ho <;> cases ho <;> cases op <;> simp_all [isBy, regroups, isFactor, isTerm]
      · next ho =>
        have hmod : callee ≠ "mod" := by
          rintro rfl
          cases ho
        simp [isBy, hmod]
  | _ :: _ :: _ :: _ => simp [translateCall, isBy]

theorem isRemainder_call (helpers : List String) (callee : String) (args : List Tree) :
    (call callee args).isRemainder helpers =
      (callee = "mod" && args.length = 2 && callee ∉ helpers) := by
  match args with
  | [] => simp [isRemainder]
  | [a] => simp [isRemainder]
  | [a, b] => simp [isRemainder]
  | _ :: _ :: _ :: _ => simp [isRemainder]

theorem isBy_translate (helpers : List String) (op : BinaryOp) (t : Tree) :
    (t.translate helpers).isBy (regroups (if op = .xor then .ne else op)) =
      (t.isBy (regroups op) || (op = .mul && t.isRemainder helpers)) := by
  cases t with
  | binary o a b => simp [translate, isBy, isRemainder, regroups_translated]
  | call callee args =>
      have hop : ((if op = .xor then BinaryOp.ne else op) = .mul) = (op = .mul) := by
        cases op <;> simp
      have hlength : (translateAll helpers args).length = args.length := by
        rw [translateAll_eq_map, List.length_map]
      rw [translate, isRemainder_call]
      by_cases hmem : callee ∈ helpers
      · rw [if_pos hmem]
        simp [isBy, hmem]
      · rw [if_neg hmem, isBy_translateCall, hlength]
        simp [isBy, hmem, hop, Bool.and_assoc]
  | _ => simp [translate, isBy, isRemainder]

mutual

theorem grouped_translate_iff (helpers : List String) : ∀ t : Tree, t.Grouped →
    ((t.translate helpers).Grouped ↔ ¬ t.ScalesRemainder helpers)
  | word s, _ => by simp [translate, Grouped, ScalesRemainder]
  | unary op a, h => by
    rw [translate, Grouped, ScalesRemainder]
    exact grouped_translate_iff helpers a (by simpa only [Grouped] using h)
  | binary op a b, h => by
    obtain ⟨ha, hb, hby⟩ := by simpa only [Grouped] using h
    rw [translate, Grouped, ScalesRemainder, grouped_translate_iff helpers a ha,
      grouped_translate_iff helpers b hb, isBy_translate, hby]
    simp
    tauto
  | call callee args, h => by
    have hargs := groupedAll_translateAll_iff helpers args (by simpa only [Grouped] using h)
    rw [translate, ScalesRemainder, ← hargs]
    split
    · rw [Grouped]
    · exact grouped_translateCall_iff callee _
  | member a name, h => by
    rw [translate, Grouped, ScalesRemainder]
    exact grouped_translate_iff helpers a (by simpa only [Grouped] using h)
  | index a i, h => by
    obtain ⟨ha, hi⟩ := by simpa only [Grouped] using h
    rw [translate, Grouped, ScalesRemainder, grouped_translate_iff helpers a ha,
      grouped_translate_iff helpers i hi, not_or]

theorem groupedAll_translateAll_iff (helpers : List String) : ∀ ts : List Tree, GroupedAll ts →
    (GroupedAll (translateAll helpers ts) ↔ ¬ ScalesRemainderAny helpers ts)
  | [], _ => by simp [translateAll, GroupedAll, ScalesRemainderAny]
  | t :: ts, h => by
    obtain ⟨ht, hts⟩ := by simpa only [GroupedAll] using h
    rw [translateAll, GroupedAll, ScalesRemainderAny, grouped_translate_iff helpers t ht,
      groupedAll_translateAll_iff helpers ts hts, not_or]

end

end Tree

/-! ### Both texts of an expression -/

/-- The two texts of an expression without built-in values and texture accesses are read alike, but
for the grouping of remainders: the WGSL text is read as the translated tree of the GLSL text,
regrouped.  That is the translated tree itself exactly if no product has a remainder as its right
factor. -/
theorem parse_wgsl_eq_regroup_translate (place : Wgsl.Place) (helpers : List String) (e : Expr)
    (hproper : Proper e) (htranslatable : Translatable place helpers e) (color : String)
    (location : String → Nat) :
    ∃ code g, Glsl.lower ⟨.es300, .word color, location⟩ e = .ok code ∧
      (Named e ∧ isName color = true → read code.text = some (lexemes code.tokens)) ∧
      parse (lexemes code.tokens) = some g ∧
      ((∀ stage, place ≠ .helper stage) → ∃ code', Wgsl.lower place e = .ok code') ∧
      (∀ code', Wgsl.lower place e = .ok code' →
        (Named e ∧ NamedPlace place → read code'.text = some (lexemes code'.tokens)) ∧
        parse (lexemes code'.tokens) = some (g.translate helpers).regroup) ∧
      ((g.translate helpers).regroup = g.translate helpers ↔ ¬ g.ScalesRemainder helpers) := by
  have hglsl := yields_glsl color location hproper
  have hwgsl := yields_wgsl place hproper
  obtain ⟨code, hcode⟩ := hglsl.succeeds trivial
  have hwritten := hglsl.written code hcode
  refine ⟨code, _, hcode, hwritten.read, hwritten.parse, hwgsl.succeeds, ?_, ?_⟩
  · intro code' hcode'
    have hwritten' := hwgsl.written code' hcode'
    refine ⟨hwritten'.read, ?_⟩
    rw [Tree.regroup_translate_regroup, translate_reading color place helpers e hproper
      htranslatable]
    exact hwritten'.parse
  · rw [Tree.regroup_eq_self_iff]
    exact Tree.grouped_translate_iff helpers _ (Tree.grouped_regroup _)

/-- `not(lessThan(a, mod(b, c) * half(a)))`, where `half` is a helper. -/
def comparedRemainder : Expr :=
  .call (.intrinsic .notEach) [.call (.intrinsic .lessThan) [.var (.uniform "a"),
    .binary .mul (.call (.intrinsic .mod) [.var (.uniform "b"), .var (.uniform "c")])
      (.call (.helper "half") [.var (.uniform "a")])]]

/-- A remainder that is a left factor: both texts are read alike. -/
theorem parse_wgsl_comparedRemainder :
    Proper comparedRemainder ∧ Translatable .standalone ["half"] comparedRemainder ∧
    ∃ code code' g, Glsl.lower .standalone comparedRemainder = .ok code ∧
      Wgsl.lower .standalone comparedRemainder = .ok code' ∧
      read code.text = some (lexemes code.tokens) ∧ parse (lexemes code.tokens) = some g ∧
      read code'.text = some (lexemes code'.tokens) ∧
      parse (lexemes code'.tokens) = some (g.translate ["half"]) ∧
      g.translate ["half"] = .unary .not (.binary .lt (.word "a") (.binary .mul
        (.binary .rem (.word "b") (.word "c")) (.call "half" [.word "a"]))) := by
  have hproper : Proper comparedRemainder := by
    simp [comparedRemainder, Proper, ProperAll, ProperCall, isInfix]
  have htranslatable : Translatable .standalone ["half"] comparedRemainder := by
    simp [comparedRemainder, Translatable, TranslatableAll, TranslatableCallee,
      TranslatableHandle, Glsl.intrinsicName]
  have hnamed : Named comparedRemainder := by
    simp only [comparedRemainder, Named, NamedAll, NamedHandle, NamedCallee]
    decide
  obtain ⟨code, g, hcode, hread, hg, hsucceeds, hwgsl, heq⟩ := parse_wgsl_eq_regroup_translate
    .standalone ["half"] comparedRemainder hproper htranslatable "gl_FragColor" fun _ ↦ 0
  obtain ⟨code', hcode'⟩ := hsucceeds (by simp)
  obtain ⟨hread', hg'⟩ := hwgsl code' hcode'
  obtain rfl := Except.ok.inj (show Except.ok _ = Except.ok code from hcode)
  obtain rfl := Option.some.inj (show some _ = some g from hg)
  have hself := heq.mpr (by simp [Tree.ScalesRemainder, Tree.ScalesRemainderAny, Tree.isRemainder])
  refine ⟨hproper, htranslatable, _, code', _, hcode, hcode', hread ⟨hnamed, by decide⟩, hg,
    hread' ⟨hnamed, trivial⟩, ?_, rfl⟩
  rw [hg', hself]

/-- `a * mod(b, c)`. -/
def scaledRemainder : Expr :=
  .binary .mul (.var (.uniform "a"))
    (.call (.intrinsic .mod) [.var (.uniform "b"), .var (.uniform "c")])

/-- The right factor of a product is written without parentheses even if it is a remainder, so the
two texts of `a * mod(b, c)` are not read alike. -/
theorem parse_wgsl_scaledRemainder :
    Proper scaledRemainder ∧ Translatable .standalone [] scaledRemainder ∧
    ∃ code code' g g', Glsl.lower .standalone scaledRemainder = .ok code ∧
      Wgsl.lower .standalone scaledRemainder = .ok code' ∧
      code.text = "a * mod(b, c)" ∧ code'.text = "a * b % c" ∧
      read code.text = some (lexemes code.tokens) ∧ parse (lexemes code.tokens) = some g ∧
      read code'.text = some (lexemes code'.tokens) ∧ parse (lexemes code'.tokens) = some g' ∧
      g' ≠ g.translate [] := by
  refine ⟨?_, ?_, .binary .mul (.word "a") (.call "mod" [.word "b", .word "c"]),
    .binary .mul (.word "a") (.binary .rem (.word "b") (.word "c")),
    .binary .mul (.word "a") (.call "mod" [.word "b", .word "c"]),
    .binary .rem (.binary .mul (.word "a") (.word "b")) (.word "c"), rfl, rfl, ?_, ?_, ?_, rfl, ?_,
    rfl, ?_⟩
  · simp [scaledRemainder, Proper, ProperAll, ProperCall]
  · simp [scaledRemainder, Translatable, TranslatableAll, TranslatableCallee, TranslatableHandle]
  · decide +kernel
  · decide +kernel
  · decide +kernel
  · decide +kernel
  · intro h
    cases h

end Shading.Reading
