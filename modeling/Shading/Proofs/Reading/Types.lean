import Shading.Proofs.Reading.Literals
import Shading.Proofs.Reading.Translation

/-!
# Reading types

A type is written as the name of its primitive type with the array dimensions around it.  GLSL puts
all dimensions at the end, the outermost first; in a declaration they follow the name that is
declared.  WGSL nests, so that it opens one array for every dimension first and closes them from the
inside.

Main statement: types read back from their texts in both languages, with all their dimensions in
order, and so different types have different texts.
-/

namespace Shading.Reading

/-! ### Readers -/

def prim? (spell : Prim → String) (s : List Char) : Option Prim :=
  prims.find? (spell · = String.ofList s)

/-- A dimension up to the mark that closes it. -/
def dimension? (mark : Char) (s : List Char) : Option Nat :=
  if s.getLast? = some mark then whole? s.dropLast else none

/-- `float[3][2]` -/
def glslType? (s : String) : Option Ty :=
  match s.toList.splitOn '[' with
  | base :: dims => do
    return ⟨← prim? Glsl.primName base, ← dims.mapM (dimension? ']')⟩
  | [] => none

/-- `float name[3][2]` -/
def glslDecl? (name s : String) : Option Ty := do
  let base ← prim? Glsl.primName (s.toList.takeWhile (· ≠ ' '))
  let rest ← (s.toList.dropWhile (· ≠ ' ')).dropPrefix? (' ' :: name.toList)
  match rest.splitOn '[' with
  | [] :: dims => return ⟨base, ← dims.mapM (dimension? ']')⟩
  | _ => none

/-- What opens an array type in WGSL. -/
def opening : List Char :=
  ['a', 'r', 'r', 'a', 'y', '<']

/-- `array<array<f32, 2>, 3>` -/
def wgslType? (s : String) : Option Ty :=
  match s.toList.splitOn ',' with
  | head :: dims => do
    let base ← head.dropPrefix? (List.replicate dims.length opening).flatten
    let dims ← dims.mapM fun dim ↦ (dim.dropPrefix? [' ']).bind (dimension? '>')
    return ⟨← prim? Wgsl.primName base, dims.reverse⟩
  | [] => none

/-! ### Parts of a type -/

theorem Legible.prim?_eq {spell : Prim → String} (h : Legible spell) (p : Prim) :
    prim? spell (spell p).toList = some p := by
  rw [prim?, String.ofList_toList]
  exact h.find?_eq p

theorem dimension?_toDigits (mark : Char) (n : Nat) :
    dimension? mark (Nat.toDigits 10 n ++ [mark]) = some n := by
  rw [dimension?, List.getLast?_concat, if_pos rfl, List.dropLast_concat,
    (digits_toDigits n).whole?_eq, numeral_toDigits]

/-- Dimensions are read one by one. -/
theorem mapM_dimension? {read : List Char → Option Nat} {write : Nat → List Char}
    (h : ∀ n, read (write n) = some n) (dims : List Nat) :
    (dims.map write).mapM read = some dims := by
  rw [List.mapM_map]
  exact mapM_eq_some_self h dims

/-! ### GLSL -/

theorem glslType?_typeText (t : Ty) : glslType? (Glsl.typeText (.ofTy t)) = some t := by
  have htext : (Glsl.typeText (.ofTy t)).toList =
      (Glsl.primName t.prim).toList ++ (Glsl.dimsText t.dims).toList :=
    String.toList_append
  rw [glslType?, htext, splitOn_dimsText (bracket_notMem_primName t.prim)]
  dsimp only
  rw [legible_glsl.prim?_eq, mapM_dimension? (dimension?_toDigits ']')]
  rfl

theorem blank_notMem_primName (p : Prim) : ' ' ∉ (Glsl.primName p).toList := by
  rcases p with ⟨scalar, dim⟩ | shape
  · cases scalar <;> cases dim <;> decide
  · cases shape <;> decide

theorem glslDecl?_declText (name : String) (t : Ty) :
    glslDecl? name (Glsl.declText (.ofTy t) name) = some t := by
  have htext : (Glsl.declText (.ofTy t) name).toList =
      (Glsl.primName t.prim).toList ++ ' ' :: (name.toList ++ (Glsl.dimsText t.dims).toList) := by
    simp [Glsl.declText, Glsl.baseText, Code.TypeName.ofTy]
  have hword : ∀ c ∈ (Glsl.primName t.prim).toList, decide (c ≠ ' ') = true := by
    intro c hc
    exact decide_eq_true fun h ↦ blank_notMem_primName t.prim (h ▸ hc)
  have hrest : (' ' :: (name.toList ++ (Glsl.dimsText t.dims).toList)).dropPrefix?
      (' ' :: name.toList) = some (Glsl.dimsText t.dims).toList :=
    List.dropPrefix?_eq_some_iff.mpr ⟨' ' :: name.toList, rfl, beq_self_eq_true _⟩
  have hdims := splitOn_dimsText (List.not_mem_nil (a := '[')) t.dims
  rw [List.nil_append] at hdims
  rw [glslDecl?, htext, List.takeWhile_append_of_pos hword, List.dropWhile_append_of_pos hword,
    List.takeWhile_cons_of_neg (by decide), List.dropWhile_cons_of_neg (by decide),
    List.append_nil, legible_glsl.prim?_eq, hrest]
  simp only [Option.bind_eq_bind, Option.bind_some, hdims]
  rw [mapM_dimension? (dimension?_toDigits ']')]
  rfl

/-! ### WGSL -/

/-- The number of elements and the end of an array type in WGSL. -/
def closing (n : Nat) : List Char :=
  ' ' :: (Nat.toDigits 10 n ++ ['>'])

/-- All arrays are opened before the element type, and the innermost is closed first. -/
theorem toList_arrayText (element : String) (dims : List Nat) :
    (Wgsl.arrayText element dims).toList =
      (List.replicate dims.length opening).flatten ++ element.toList ++
        dims.reverse.flatMap fun n ↦ ',' :: closing n := by
  induction dims with
  | nil => simp [Wgsl.arrayText]
  | cons n dims ih =>
    have hopening : "array<".toList = opening := by decide
    have hstep : (Wgsl.arrayText element (n :: dims)).toList =
        opening ++ (Wgsl.arrayText element dims).toList ++ ',' :: closing n := by
      simp [Wgsl.arrayText, closing, hopening]
    rw [hstep, ih, List.reverse_cons, List.flatMap_append, List.flatMap_singleton, List.length_cons,
      List.replicate_succ, List.flatten_cons]
    simp only [List.append_assoc]

theorem comma_notMem_primName (p : Prim) : ',' ∉ (Wgsl.primName p).toList := by
  rcases p with ⟨scalar, dim⟩ | shape
  · cases scalar <;> cases dim <;> decide
  · cases shape <;> decide

theorem comma_notMem_closing (n : Nat) : ',' ∉ closing n := by
  simp [closing, notMem_toDigits]

theorem wgslType?_typeText (t : Ty) : wgslType? (Wgsl.typeText (.ofTy t)) = some t := by
  have hopening : ',' ∉ opening := by decide
  have hhead : ',' ∉ (List.replicate t.dims.length opening).flatten ++
      (Wgsl.primName t.prim).toList := by
    simp [List.mem_replicate, hopening, comma_notMem_primName]
  have htext := toList_arrayText (Wgsl.primName t.prim) t.dims
  have hbase : ((List.replicate t.dims.length opening).flatten ++
      (Wgsl.primName t.prim).toList).dropPrefix? (List.replicate t.dims.length opening).flatten =
      some (Wgsl.primName t.prim).toList :=
    List.dropPrefix?_eq_some_iff.mpr ⟨_, rfl, beq_self_eq_true _⟩
  have hclosing : ∀ n, ((closing n).dropPrefix? [' ']).bind (dimension? '>') = some n := by
    intro n
    have hblank : (closing n).dropPrefix? [' '] = some (Nat.toDigits 10 n ++ ['>']) :=
      List.dropPrefix?_eq_some_iff.mpr ⟨_, rfl, beq_self_eq_true _⟩
    rw [hblank, Option.bind_some, dimension?_toDigits]
  have hsplit : (Wgsl.typeText (.ofTy t)).toList.splitOn ',' =
      ((List.replicate t.dims.length opening).flatten ++ (Wgsl.primName t.prim).toList) ::
        t.dims.reverse.map closing := by
    rw [← splitOn_append_flatMap comma_notMem_closing hhead, ← htext]
    rfl
  rw [wgslType?, hsplit]
  dsimp only
  rw [List.length_map, List.length_reverse, hbase]
  simp only [Option.bind_eq_bind, Option.bind_some]
  rw [mapM_dimension? hclosing, legible_wgsl.prim?_eq]
  simp

/-! ### Types and their texts -/

/-- What reads back from a text is determined by the text. -/
theorem text_eq_iff {write : Ty → String} {read : String → Option Ty}
    (h : ∀ t, read (write t) = some t) (t u : Ty) : write t = write u ↔ t = u := by
  constructor
  · intro htext
    have hread := h t
    rw [htext, h u] at hread
    exact (Option.some.inj hread).symm
  · rintro rfl
    rfl

/-- An array type is written around its element type in WGSL, which comes to opening all arrays and
closing them from the inside.  Either language tells types apart, on their own and in declarations
of a name. -/
theorem type_texts_read_back (t : Ty) :
    (∀ n inner, t.dims = n :: inner → ∃ element, t.element? = some element ∧
      Wgsl.typeText (.ofTy t) =
        "array<" ++ Wgsl.typeText (.ofTy element) ++ ", " ++ toString n ++ ">") ∧
    (Wgsl.typeText (.ofTy t)).toList =
      (List.replicate t.dims.length opening).flatten ++ (Wgsl.primName t.prim).toList ++
        t.dims.reverse.flatMap (fun n ↦ ',' :: closing n) ∧
    wgslType? (Wgsl.typeText (.ofTy t)) = some t ∧
    Glsl.typeName .es300 t = .ok (.ofTy t) ∧
    glslType? (Glsl.typeText (.ofTy t)) = some t ∧
    (∀ name, glslDecl? name (Glsl.declText (.ofTy t) name) = some t) ∧
    ∀ u, (Wgsl.typeText (.ofTy t) = Wgsl.typeText (.ofTy u) ↔ t = u) ∧
      (Glsl.typeText (.ofTy t) = Glsl.typeText (.ofTy u) ↔ t = u) ∧
      ∀ name, Glsl.declText (.ofTy t) name = Glsl.declText (.ofTy u) name ↔ t = u := by
  refine ⟨?_, toList_arrayText _ _, wgslType?_typeText t, rfl, glslType?_typeText t,
    fun name ↦ glslDecl?_declText name t, fun u ↦ ⟨?_, ?_, fun name ↦ ?_⟩⟩
  · rintro n inner hdims
    refine ⟨⟨t.prim, inner⟩, ?_, ?_⟩
    · rw [Ty.element?, hdims]
    · rw [Wgsl.typeText, Code.TypeName.ofTy, hdims]
      rfl
  · exact text_eq_iff wgslType?_typeText t u
  · exact text_eq_iff glslType?_typeText t u
  · exact text_eq_iff (glslDecl?_declText name) t u

/-- Three rows of two vectors. -/
def table : Ty :=
  ⟨.vector .float .two, [3, 2]⟩

theorem type_texts_read_back_table :
    table.dims = [3, 2] ∧
    (∃ element, table.element? = some element ∧ Wgsl.typeText (.ofTy table) =
      "array<" ++ Wgsl.typeText (.ofTy element) ++ ", " ++ toString 3 ++ ">") ∧
    Wgsl.typeText (.ofTy table) = "array<array<vec2<f32>, 2>, 3>" ∧
    Glsl.declText (.ofTy table) "rows" = "vec2 rows[3][2]" :=
  ⟨rfl, (type_texts_read_back table).1 3 [2] rfl, by decide, by decide⟩

end Shading.Reading
