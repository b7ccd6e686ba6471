import Shading.Glsl.Lower
import Shading.Proofs.Reading.Constants
import Shading.Wgsl.Lower

/-!
# Reading literals

A literal is a constant, or a constructor with constants for its components.  A vector constructor
with a single component repeats it.  A matrix constructor would make a multiple of the identity of
one, so all components of a matrix are written, column by column.

Main statement: what is written for a literal with finite components reads as its components.
-/

namespace Shading

/-! ### Components -/

/-- One number or truth value of a literal. -/
inductive Component where
  | int (x : Int32)
  | uint (x : UInt32)
  | float (x : Binary32)
  | bool (x : Bool)

namespace Component

/-- Integers and truth values are finite. -/
def IsFinite : Component → Prop
  | float x => x.isFinite = true
  | _ => True

instance : DecidablePred IsFinite
  | float x => inferInstanceAs (Decidable (x.isFinite = true))
  | int _ | uint _ | bool _ => isTrue trivial

def kind : Component → Scalar
  | int _ => .int
  | uint _ => .uint
  | float _ => .float
  | bool _ => .bool

/-- How a component is written. -/
def code : Component → Code.Expr
  | int x => Code.intComponent x
  | uint x => Code.uintComponent x
  | float x => Code.floatComponent x
  | bool x => Code.boolComponent x

end Component

/-- The components of a literal, those of a matrix column by column. -/
def Literal.entries : Literal → List Component
  | .int _ v => v.toList.map .int
  | .uint _ v => v.toList.map .uint
  | .float _ v => v.toList.map .float
  | .bool _ v => v.toList.map .bool
  | .matrix _ columns => (columns.toList.flatMap Vector.toList).map .float

theorem Prim.components_pos (p : Prim) : 0 < p.components := by
  cases p with
  | vector s d => cases d <;> exact Nat.succ_pos _
  | matrix m => cases m <;> exact Nat.succ_pos _

theorem Prim.eq_of_isScalar {p : Prim} (h : p.isScalar = true) : p = .vector p.kind .one := by
  cases p with
  | vector s d =>
      cases d with
      | one => rfl
      | _ => cases h
  | matrix m => cases h

theorem Literal.length_entries (v : Literal) : v.entries.length = v.prim.components := by
  cases v with
  | matrix m columns =>
      rw [entries, List.length_map, List.length_flatMap]
      simp [prim, Prim.components]
  | _ => simp [entries, prim, Prim.components]

theorem Literal.kind_of_mem_entries {v : Literal} {c : Component} (hc : c ∈ v.entries) :
    c.kind = v.prim.kind := by
  cases v <;> obtain ⟨x, -, rfl⟩ := List.mem_map.mp hc <;> rfl

namespace Reading

/-! ### Constructors -/

def prims : List Prim :=
  ([.int, .uint, .float, .bool].flatMap fun s ↦ [.one, .two, .three, .four].map (.vector s)) ++
    [.two2, .three3, .four4, .four3].map .matrix

theorem mem_prims (p : Prim) : p ∈ prims := by
  cases p with
  | vector s d => cases s <;> cases d <;> decide
  | matrix m => cases m <;> decide

/-- The callee and the arguments of a call. -/
def call? (s : List Char) : Option (String × List (List Char)) :=
  match s.dropWhile (· ≠ '(') with
  | [] => none
  | _ :: rest =>
    if rest.getLast? = some ')' then
      some (String.ofList (s.takeWhile (· ≠ '(')),
        (rest.dropLast.splitOn ',').map (·.dropWhile (· = ' ')))
    else none

/-- The components that a constructor gets.  Vectors repeat a single one. -/
def expand? : Prim → List Constant → Option (List Constant)
  | .vector _ d, [k] => some (List.replicate d.size k)
  | p, ks => if ks.length = p.components then some ks else none

/-- The type and the components of a literal, where `spell` gives the names of constructors. -/
def literal? (spell : Prim → String) (s : String) : Option (Prim × List Constant) :=
  match call? s.toList with
  | none => (constant? s.toList).map fun k ↦ (.vector k.kind .one, [k])
  | some (callee, args) => do
    let p ← prims.find? (spell · = callee)
    let ks ← expand? p (← args.mapM constant?)
    if ∀ k ∈ ks, k.kind = p.kind then return (p, ks) else none

/-- A constant has the value of a component.  The nearest float to a decimal is the component or
the other zero. -/
inductive Constant.Denotes : Constant → Component → Prop
  | int (x : Int32) : Denotes (.int x.toInt) (.int x)
  | uint (x : UInt32) : Denotes (.uint x.toNat) (.uint x)
  | float {q : ℚ} {x : Binary32} (h : ∀ y, Binary32.IsNearest q y ↔ y.sameValue x = true) :
      Denotes (.float q) (.float x)
  | bool (x : Bool) : Denotes (.bool x) (.bool x)

/-- Code reads as the type and the components of a literal. -/
def ReadsBack (spell : Prim → String) (v : Literal) (code : Code.Expr) : Prop :=
  ∃ ks, literal? spell code.text = some (v.prim, ks) ∧ List.Forall₂ Constant.Denotes ks v.entries

/-! ### Components read back -/

theorem toList_text_word (s : String) : (Code.Expr.word s).text.toList = s.toList := by
  simp [Code.Expr.text, Code.Expr.tokens, Code.Token.text]

theorem toList_text_minus (s : String) :
    (Code.Expr.unary .neg (.word s)).text.toList = '-' :: s.toList := by
  simp [Code.Expr.text, Code.Expr.tokens, Code.Token.text, Code.Expr.wrap, Code.Expr.grade,
    UnaryOp.symbol]

/-- A sign in front of a number is that of the constant. -/
theorem constant?_signed {negative : Bool} {s : String} {k : Constant}
    (h : number? s.toList = some k) :
    constant? (Code.signed negative s).text.toList = if negative then k.neg? else some k := by
  cases negative with
  | false =>
      rw [Code.signed, if_neg Bool.false_ne_true, toList_text_word, constant?_of_number? h]
      rfl
  | true =>
      rw [Code.signed, if_pos rfl, toList_text_minus, constant?_minus h]
      rfl

theorem constant?_int (x : Int32) :
    constant? (Code.intComponent x).text.toList = some (.int x.toInt) := by
  have hnumber : number? (toString x.toInt.natAbs).toList = some (.int x.toInt.natAbs) := by
    rw [toList_toString, number?_int (digits_toDigits _), numeral_toDigits]
  rw [Code.intComponent, constant?_signed hnumber]
  by_cases hneg : x.toInt < 0
  · rw [if_pos (decide_eq_true hneg), Constant.neg?, Int.ofNat_natAbs_of_nonpos hneg.le, neg_neg]
  · rw [if_neg (by simpa using hneg), Int.natAbs_of_nonneg (not_lt.mp hneg)]

theorem constant?_uint (x : UInt32) :
    constant? (Code.uintComponent x).text.toList = some (.uint x.toNat) := by
  have hmark : "u".toList = ['u'] := by
    simp
  rw [Code.uintComponent, toList_text_word, String.toList_append, toList_toString, hmark,
    constant?_of_number? (number?_uint (digits_toDigits _)), numeral_toDigits]

theorem constant?_bool (x : Bool) :
    constant? (Code.boolComponent x).text.toList = some (.bool x) := by
  rw [Code.boolComponent, toList_text_word]
  cases x <;> decide

theorem constant?_float {x : Binary32} (hx : x.isFinite = true) : ∃ q : ℚ,
    constant? (Code.floatComponent x).text.toList = some (.float q) ∧
      ∀ y, Binary32.IsNearest q y ↔ y.sameValue x = true := by
  obtain ⟨q, hq, haround⟩ := number?_text hx
  have hnan := Binary32.isNaN_of_isFinite hx
  have hposition := Binary32.position_eq hnan
  rw [Code.floatComponent, constant?_signed hq]
  cases hneg : x.isNegative with
  | false =>
      rw [hneg, if_neg Bool.false_ne_true] at hposition
      exact ⟨q, rfl, Binary32.Around.isNearest_iff (hposition ▸ haround) hnan⟩
  | true =>
      rw [hneg, if_pos rfl] at hposition
      exact ⟨-q, rfl, Binary32.Around.isNearest_iff (hposition ▸ haround.neg) hnan⟩

/-- Every component reads back. -/
theorem exists_denotes {c : Component} (hc : c.IsFinite) :
    ∃ k, constant? c.code.text.toList = some k ∧ k.Denotes c := by
  cases c with
  | int x => exact ⟨_, constant?_int x, .int x⟩
  | uint x => exact ⟨_, constant?_uint x, .uint x⟩
  | bool x => exact ⟨_, constant?_bool x, .bool x⟩
  | float x =>
      obtain ⟨q, hq, hnearest⟩ := constant?_float hc
      exact ⟨_, hq, .float hnearest⟩

/-! ### Calls -/

theorem toList_tokensSeparated (args : List Code.Expr) :
    ((Code.Expr.tokensSeparated args).map Code.Token.text).flatMap String.toList =
      [',', ' '].intercalate (args.map (·.text.toList)) := by
  match args with
  | [] => simp [Code.Expr.tokensSeparated]
  | [e] => simp [Code.Expr.tokensSeparated, Code.Expr.text]
  | e :: e' :: rest =>
      have ih := toList_tokensSeparated (e' :: rest)
      rw [Code.Expr.tokensSeparated, List.map_append, List.flatMap_append, List.map_cons,
        List.flatMap_cons, ih]
      · simp [Code.Expr.text, Code.Token.text, List.intercalate_cons_cons]
      · exact List.cons_ne_nil _ _

theorem toList_text_call (callee : String) (args : List Code.Expr) :
    (Code.Expr.call callee args).text.toList = callee.toList ++
      '(' :: ([',', ' '].intercalate (args.map (·.text.toList)) ++ [')']) := by
  rw [← toList_tokensSeparated]
  simp [Code.Expr.text, Code.Expr.tokens, Code.Token.text]

/-- The blank after a comma belongs to the argument that follows. -/
theorem intercalate_blank (a : List Char) (rest : List (List Char)) :
    [',', ' '].intercalate (a :: rest) = [','].intercalate (a :: rest.map (' ' :: ·)) := by
  induction rest generalizing a with
  | nil => rfl
  | cons b rest ih =>
      rw [List.intercalate_cons_cons, ih, List.map_cons, List.intercalate_cons_cons]
      cases rest with
      | nil => simp
      | cons c rest => simp [List.intercalate_cons_cons]

/-- Arguments without separators are found again. -/
theorem splitOn_intercalate {args : List (List Char)} (hne : args ≠ [])
    (hargs : ∀ a ∈ args, ∀ c ∈ a, Solid c) :
    (([',', ' '].intercalate args).splitOn ',').map (·.dropWhile (· = ' ')) = args := by
  have hcomma : ∀ a ∈ args, ',' ∉ a := fun a ha hc ↦ (hargs a ha ',' hc).2.1 rfl
  have hblank : ∀ a ∈ args, a.dropWhile (· = ' ') = a := by
    intro a ha
    cases a with
    | nil => rfl
    | cons c a =>
        exact List.dropWhile_cons_of_neg (by simpa using (hargs _ ha c List.mem_cons_self).2.2)
  obtain ⟨a, rest, rfl⟩ := List.exists_cons_of_ne_nil hne
  rw [List.forall_mem_cons] at hcomma hblank
  rw [intercalate_blank, List.splitOn_intercalate _ _ (List.cons_ne_nil _ _), List.map_cons,
    hblank.1, List.map_map]
  · congr 1
    conv_rhs => rw [← List.map_id rest]
    apply List.map_congr_left
    intro b hb
    simpa using hblank.2 b hb
  · rw [List.forall_mem_cons, List.forall_mem_map]
    refine ⟨hcomma.1, fun b hb ↦ ?_⟩
    simpa using hcomma.2 b hb

theorem call?_append {callee : String} (hcallee : '(' ∉ callee.toList) {args : List (List Char)}
    (hne : args ≠ []) (hargs : ∀ a ∈ args, ∀ c ∈ a, Solid c) :
    call? (callee.toList ++ '(' :: ([',', ' '].intercalate args ++ [')'])) =
      some (callee, args) := by
  have hname : ∀ c ∈ callee.toList, decide (c ≠ '(') = true := by
    intro c hc
    exact decide_eq_true (ne_of_mem_of_not_mem hc hcallee)
  rw [call?, List.dropWhile_append_of_pos hname, List.takeWhile_append_of_pos hname,
    List.dropWhile_cons_of_neg (by decide), List.takeWhile_cons_of_neg (by decide),
    List.append_nil, String.ofList_toList]
  dsimp only
  rw [List.getLast?_concat, if_pos rfl, List.dropLast_concat, splitOn_intercalate hne hargs]

theorem call?_of_solid {s : List Char} (hs : ∀ c ∈ s, Solid c) : call? s = none := by
  have hdrop : s.dropWhile (· ≠ '(') = [] :=
    List.dropWhile_eq_nil_iff.mpr fun c hc ↦ decide_eq_true (hs c hc).1
  rw [call?, hdrop]

/-! ### Written components -/

/-- Every component is written, or one of them that all others agree with. -/
def Stands (written entries : List Component) : Prop :=
  written = entries ∨ ∃ c ∈ entries, written = [c] ∧
    ∀ c' ∈ entries, ∀ k : Constant, k.Denotes c → k.Denotes c'

theorem stands_collapse {α : Type} (f : α → Component) {same : α → α → Bool}
    (hsame : ∀ x a, same x a = true → ∀ k : Constant, k.Denotes (f a) → k.Denotes (f x))
    (xs : List α) : Stands ((Code.collapse same xs).map f) (xs.map f) := by
  cases xs with
  | nil => exact .inl rfl
  | cons a rest =>
      rw [Code.collapse]
      split
      · next hall =>
        refine .inr ⟨f a, List.mem_cons_self, rfl, ?_⟩
        rw [List.map_cons, List.forall_mem_cons, List.forall_mem_map]
        exact ⟨fun _ ↦ id, fun x hx ↦ hsame x a (List.all_eq_true.mp hall x hx)⟩
      · exact .inl rfl

theorem stands_collapse_beq {α : Type} [BEq α] [LawfulBEq α] (f : α → Component) (xs : List α) :
    Stands ((Code.collapse (· == ·) xs).map f) (xs.map f) := by
  apply stands_collapse
  intro x a h k
  rw [eq_of_beq h]
  exact id

/-- Equal floats are nearest to the same decimals. -/
theorem denotes_float_of_sameValue (x a : Binary32) (h : x.sameValue a = true) (k : Constant)
    (hk : k.Denotes (.float a)) : k.Denotes (.float x) := by
  cases hk with
  | float hk =>
      refine .float fun y ↦ ?_
      obtain ⟨hx, ha, hposition⟩ := (Binary32.sameValue_iff x a).mp h
      rw [hk y, Binary32.sameValue_iff, Binary32.sameValue_iff, hx, ha, hposition]

/-- The components that are written for a literal. -/
def writtenEntries : Literal → List Component
  | .int _ v => (Code.collapse (· == ·) v.toList).map .int
  | .uint _ v => (Code.collapse (· == ·) v.toList).map .uint
  | .float _ v => (Code.collapse Binary32.sameValue v.toList).map .float
  | .bool _ v => (Code.collapse (· == ·) v.toList).map .bool
  | .matrix m columns => (Literal.matrix m columns).entries

theorem components_eq (v : Literal) :
    Code.components v = (writtenEntries v).map Component.code := by
  cases v <;> rw [writtenEntries] <;> simp only [Code.components, Literal.entries, List.map_map] <;>
    rfl

theorem stands_writtenEntries (v : Literal) : Stands (writtenEntries v) v.entries := by
  cases v with
  | int d v => exact stands_collapse_beq _ _
  | uint d v => exact stands_collapse_beq _ _
  | float d v => exact stands_collapse _ denotes_float_of_sameValue _
  | bool d v => exact stands_collapse_beq _ _
  | matrix m columns => exact .inl rfl

theorem mem_entries_of_mem_writtenEntries {v : Literal} {c : Component}
    (hc : c ∈ writtenEntries v) : c ∈ v.entries := by
  rcases stands_writtenEntries v with hall | ⟨c', hc', hone, -⟩
  · rwa [← hall]
  · rw [hone, List.mem_singleton] at hc
    rwa [hc]

theorem writtenEntries_ne_nil (v : Literal) : writtenEntries v ≠ [] := by
  have hpos : 0 < v.entries.length := by
    rw [v.length_entries]
    exact v.prim.components_pos
  rcases stands_writtenEntries v with hall | ⟨c, -, hone, -⟩
  · rw [hall]
    exact List.ne_nil_of_length_pos hpos
  · rw [hone]
    exact List.cons_ne_nil _ _

/-- Constants are read for what is written. -/
theorem exists_constants {cs : List Component} (hcs : ∀ c ∈ cs, c.IsFinite) : ∃ ks,
    (cs.map fun c ↦ c.code.text.toList).mapM constant? = some ks ∧
      List.Forall₂ Constant.Denotes ks cs := by
  induction cs with
  | nil => exact ⟨[], rfl, .nil⟩
  | cons c cs ih =>
      rw [List.forall_mem_cons] at hcs
      obtain ⟨k, hk, hdenotes⟩ := exists_denotes hcs.1
      obtain ⟨ks, hks, hall⟩ := ih hcs.2
      refine ⟨k :: ks, ?_, .cons hdenotes hall⟩
      rw [List.map_cons, List.mapM_cons, hk, hks]
      rfl

theorem Constant.Denotes.kind_eq {k : Constant} {c : Component} (h : k.Denotes c) :
    k.kind = c.kind := by
  cases h <;> rfl

theorem kind_of_forall₂ {ks : List Constant} {cs : List Component}
    (h : List.Forall₂ Constant.Denotes ks cs) {s : Scalar} (hcs : ∀ c ∈ cs, c.kind = s) :
    ∀ k ∈ ks, k.kind = s := by
  induction h with
  | nil => exact fun _ ↦ List.not_mem_nil.elim
  | cons hk _ ih =>
      rw [List.forall_mem_cons] at hcs ⊢
      exact ⟨hk.kind_eq.trans hcs.1, ih hcs.2⟩

/-! ### Expansion -/

theorem expand?_of_length {p : Prim} {ks : List Constant} (h : ks.length = p.components) :
    expand? p ks = some ks := by
  unfold expand?
  split
  · next d k =>
    change 1 = d.size at h
    rw [← h, List.replicate_one]
  · exact if_pos h

theorem forall₂_replicate {k : Constant} {cs : List Component} (h : ∀ c ∈ cs, k.Denotes c) :
    List.Forall₂ Constant.Denotes (List.replicate cs.length k) cs := by
  induction cs with
  | nil => exact .nil
  | cons c cs ih =>
      rw [List.forall_mem_cons] at h
      exact .cons h.1 (ih h.2)

/-- What a constructor makes of the constants that are written. -/
theorem exists_expand (v : Literal) {ks : List Constant}
    (hks : List.Forall₂ Constant.Denotes ks (writtenEntries v)) :
    ∃ ks', expand? v.prim ks = some ks' ∧ List.Forall₂ Constant.Denotes ks' v.entries := by
  by_cases hall : writtenEntries v = v.entries
  · rw [hall] at hks
    exact ⟨ks, expand?_of_length (hks.length_eq.trans v.length_entries), hks⟩
  · obtain ⟨c, -, hwritten, hagree⟩ := (stands_writtenEntries v).resolve_left hall
    rw [hwritten, List.forall₂_cons_right_iff] at hks
    obtain ⟨k, ks', hk, hnil, rfl⟩ := hks
    rw [List.forall₂_nil_right_iff] at hnil
    subst hnil
    refine ⟨_, ?_, forall₂_replicate fun c' hc' ↦ hagree c' hc' k hk⟩
    rw [v.length_entries]
    -- a matrix is written in full, so the single component is that of a vector
    cases v with
    | matrix m columns => exact absurd rfl hall
    | _ => rfl

/-! ### Literals read back -/

variable {spell : Prim → String}

theorem literal?_constant {s : String} {k : Constant} (h : constant? s.toList = some k) :
    literal? spell s = some (.vector k.kind .one, [k]) := by
  rw [literal?, call?_of_solid (solid_of_constant? h), h]
  rfl

/-- A scalar is written as it is. -/
theorem readsBack_of_isScalar {v : Literal} (hv : ∀ c ∈ v.entries, c.IsFinite)
    (hscalar : v.prim.isScalar = true) : ReadsBack spell v (Code.literal spell v) := by
  have hprim := Prim.eq_of_isScalar hscalar
  have hlength := v.length_entries
  rw [hprim] at hlength
  obtain ⟨c, hc⟩ := List.length_eq_one_iff.mp hlength
  have hmem : c ∈ v.entries := by
    rw [hc]
    exact List.mem_singleton_self c
  have hwritten : writtenEntries v = [c] := by
    rcases stands_writtenEntries v with hall | ⟨c', hc', hone, -⟩
    · rw [hall, hc]
    · rw [hc, List.mem_singleton] at hc'
      rw [hone, hc']
  have hcode : Code.literal spell v = c.code := by
    rw [Code.literal, hscalar, components_eq, hwritten]
    rfl
  obtain ⟨k, hk, hdenotes⟩ := exists_denotes (hv c hmem)
  refine ⟨[k], ?_, ?_⟩
  · rw [hcode, literal?_constant hk, hdenotes.kind_eq, Literal.kind_of_mem_entries hmem, ← hprim]
  · rw [hc]
    exact .cons hdenotes .nil

/-- Names of constructors that can be told apart. -/
structure Legible (spell : Prim → String) : Prop where
  find?_eq : ∀ p, prims.find? (spell · = spell p) = some p
  notMem : ∀ p, '(' ∉ (spell p).toList

theorem literal?_call (hspell : Legible spell) (p : Prim) {codes : List Code.Expr}
    (hne : codes ≠ []) (hsolid : ∀ e ∈ codes, ∀ c ∈ e.text.toList, Solid c)
    {ks ks' : List Constant}
    (hread : (codes.map (·.text.toList)).mapM constant? = some ks)
    (hexpand : expand? p ks = some ks') (hkind : ∀ k ∈ ks', k.kind = p.kind) :
    literal? spell (Code.Expr.call (spell p) codes).text = some (p, ks') := by
  have hcall := call?_append (hspell.notMem p) (List.map_eq_nil_iff.not.mpr hne)
    (List.forall_mem_map.mpr hsolid)
  rw [literal?, toList_text_call, hcall]
  simp only [hspell.find?_eq, hread, Option.bind_eq_bind, Option.bind_some, hexpand]
  exact if_pos hkind

/-- What is written for a literal reads as its components. -/
theorem readsBack_literal (hspell : Legible spell) {v : Literal}
    (hv : ∀ c ∈ v.entries, c.IsFinite) : ReadsBack spell v (Code.literal spell v) := by
  cases hscalar : v.prim.isScalar with
  | true => exact readsBack_of_isScalar hv hscalar
  | false =>
      have hfinite : ∀ c ∈ writtenEntries v, c.IsFinite :=
        fun c hc ↦ hv c (mem_entries_of_mem_writtenEntries hc)
      have hsolid : ∀ c ∈ writtenEntries v, ∀ x ∈ c.code.text.toList, Solid x := by
        intro c hc
        obtain ⟨k, hk, -⟩ := exists_denotes (hfinite c hc)
        exact solid_of_constant? hk
      obtain ⟨ks, hread, hdenotes⟩ := exists_constants hfinite
      obtain ⟨ks', hexpand, hentries⟩ := exists_expand v hdenotes
      refine ⟨ks', ?_, hentries⟩
      have hcode : Code.literal spell v =
          .call (spell v.prim) ((writtenEntries v).map Component.code) := by
        rw [Code.literal, hscalar, components_eq]
      rw [hcode]
      apply literal?_call hspell
      · exact List.map_eq_nil_iff.not.mpr (writtenEntries_ne_nil v)
      · exact List.forall_mem_map.mpr hsolid
      · rwa [List.map_map]
      · exact hexpand
      · exact kind_of_forall₂ hentries fun c hc ↦ Literal.kind_of_mem_entries hc

theorem legible_of_prims
    (h : ∀ p ∈ prims, prims.find? (spell · = spell p) = some p ∧ '(' ∉ (spell p).toList) :
    Legible spell :=
  ⟨fun p ↦ (h p (mem_prims p)).1, fun p ↦ (h p (mem_prims p)).2⟩

theorem legible_glsl : Legible Glsl.primName :=
  legible_of_prims (by decide +kernel)

theorem legible_wgsl : Legible Wgsl.primName :=
  legible_of_prims (by decide +kernel)

/-- Literals with finite components read back in both languages, wherever they stand.  Version 1.00
of GLSL refuses those whose type it does not have. -/
theorem literals_read_back (v : Literal) (hv : ∀ c ∈ v.entries, c.IsFinite) :
    (∀ place, ∃ code, Wgsl.lower place (.lit v) = .ok code ∧ ReadsBack Wgsl.primName v code) ∧
    ∀ c : Glsl.Context,
      (Glsl.hasPrim c.version v.prim = true →
        ∃ code, Glsl.lower c (.lit v) = .ok code ∧ ReadsBack Glsl.primName v code) ∧
      (Glsl.hasPrim c.version v.prim = false → ∃ e, Glsl.lower c (.lit v) = .error e) := by
  refine ⟨fun place ↦ ⟨_, rfl, readsBack_literal legible_wgsl hv⟩, fun c ↦ ⟨fun hprim ↦ ?_, ?_⟩⟩
  · refine ⟨Code.literal Glsl.primName v, ?_, readsBack_literal legible_glsl hv⟩
    rw [Glsl.lower, Glsl.lowerLiteral, hprim]
    rfl
  · intro hprim
    rw [Glsl.lower, Glsl.lowerLiteral, hprim]
    cases v.prim with
    | vector s d => exact ⟨_, rfl⟩
    | matrix m => exact ⟨_, rfl⟩

/-- One float for each way of writing. -/
def mixed : Literal :=
  .float .three #v[⟨0x3DCCCCCD⟩, ⟨0xB3D6BF95⟩, ⟨0x4B800000⟩]

/-- A decimal that is no float has the one that it was written for as its nearest. -/
theorem literals_read_back_mixed :
    (∃ code, Glsl.lower .standalone (.lit mixed) = .ok code ∧
      code.text = "vec3(0.1, -1e-7, 16777216.0)") ∧
    ∀ y, Binary32.IsNearest (1 / 10) y ↔ y.sameValue ⟨0x3DCCCCCD⟩ = true := by
  obtain ⟨code, hcode, ks, hread, hentries⟩ :=
    ((literals_read_back mixed (by decide)).2 .standalone).1 rfl
  cases hcode
  have htext : (Code.literal Glsl.primName mixed).text = "vec3(0.1, -1e-7, 16777216.0)" := by
    decide +kernel
  have hvalues : literal? Glsl.primName "vec3(0.1, -1e-7, 16777216.0)" =
      some (.vector .float .three, [.float (1 / 10), .float (-1 / 10000000), .float 16777216]) := by
    decide +kernel
  refine ⟨⟨_, rfl, htext⟩, ?_⟩
  rw [htext, hvalues] at hread
  obtain ⟨-, rfl⟩ := Prod.mk.inj (Option.some.inj hread)
  cases hentries with
  | cons hfirst _ =>
      cases hfirst with
      | float hnearest => exact hnearest

end Reading

end Shading
