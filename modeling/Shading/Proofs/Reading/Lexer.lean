import Shading.Proofs.Reading.Constants
import Shading.Proofs.Reading.Grammar

/-!
# Reading characters

How the characters of a text make up lexemes.  Every lexeme is as long as it can be, and blanks
separate lexemes.  A type is one word with what belongs to it: its arguments in angle brackets, or
the sizes of an array behind the name of a type.

    word   ::= number | name | name "<" ... ">" | type ("[" digits "]")*
    number ::= digit (letter | digit | "." digit | "e-")*

Main statements: names, numbers and types are one word each, whatever may come next.
-/

namespace Shading.Reading

/-! ### Operators and marks -/

/-- Operators of two characters. -/
def pair? : Char → Char → Option BinaryOp
  | '&', '&' => some .and
  | '|', '|' => some .or
  | '^', '^' => some .xor
  | '<', '<' => some .shl
  | '>', '>' => some .shr
  | '=', '=' => some .eq
  | '!', '=' => some .ne
  | '<', '=' => some .le
  | '>', '=' => some .ge
  | _, _ => none

def single? : Char → Option Lexeme
  | '|' => some (.operator .bitOr)
  | '&' => some (.operator .bitAnd)
  | '^' => some (.operator .bitXor)
  | '+' => some (.operator .add)
  | '-' => some (.operator .sub)
  | '*' => some (.operator .mul)
  | '/' => some (.operator .div)
  | '%' => some (.operator .rem)
  | '<' => some (.operator .lt)
  | '>' => some (.operator .gt)
  | '!' => some .bang
  | '(' => some .openParen
  | ')' => some .closeParen
  | ',' => some .comma
  | '.' => some .dot
  | '[' => some .openIndex
  | ']' => some .closeIndex
  | _ => none

/-- The operator or mark in front, and the characters after it. -/
def symbol? : List Char → Option (Lexeme × List Char)
  | [] => none
  | [c] => (single? c).map fun l ↦ (l, [])
  | c :: d :: cs =>
    match pair? c d with
    | some op => some (.operator op, cs)
    | none => (single? c).map fun l ↦ (l, d :: cs)

/-! ### Words -/

/-- Letters, digits, underscores, and whatever ASCII does not have. -/
def isWordChar (c : Char) : Bool :=
  c.isAlphanum || c == '_' || decide (128 ≤ c.toNat)

/-- One more character in front of what is read. -/
def keep (c : Char) (p : List Char × List Char) : List Char × List Char :=
  (c :: p.1, p.2)

/-- The rest of a number. -/
def numberTail : List Char → List Char × List Char
  | 'e' :: '-' :: cs => keep 'e' (keep '-' (numberTail cs))
  | '.' :: d :: cs => if d.isDigit then keep '.' (keep d (numberTail cs)) else ([], '.' :: d :: cs)
  | c :: cs => if isWordChar c then keep c (numberTail cs) else ([], c :: cs)
  | [] => ([], [])

/-- Up to the bracket that closes, within a number of further brackets. -/
def angles : Nat → List Char → List Char × List Char
  | _, [] => ([], [])
  | n, '<' :: cs => keep '<' (angles (n + 1) cs)
  | 0, '>' :: cs => (['>'], cs)
  | n + 1, '>' :: cs => keep '>' (angles n cs)
  | n, c :: cs => keep c (angles n cs)

/-- The types that array sizes may follow. -/
def sizedTypes : List String :=
  ["bool", "int", "uint", "float", "bvec2", "bvec3", "bvec4", "ivec2", "ivec3", "ivec4", "uvec2",
    "uvec3", "uvec4", "vec2", "vec3", "vec4", "mat2", "mat3", "mat4", "mat4x3"]

def isSizeChar (c : Char) : Bool :=
  c.isDigit || c == '[' || c == ']'

/-- What belongs to a name if it is the name of a type. -/
def typeTail (name : List Char) : List Char → List Char × List Char
  | '<' :: cs => keep '<' (angles 0 cs)
  | cs =>
    if sizedTypes.contains (String.ofList name) then
      (cs.takeWhile isSizeChar, cs.dropWhile isSizeChar)
    else ([], cs)

def word? : List Char → Option (List Char × List Char)
  | [] => none
  | c :: cs =>
    if c.isDigit then some (keep c (numberTail cs))
    else if isWordChar c then
      let name := c :: cs.takeWhile isWordChar
      let tail := typeTail name (cs.dropWhile isWordChar)
      some (name ++ tail.1, tail.2)
    else none

/-! ### The reader -/

def lexeme? (cs : List Char) : Option (Lexeme × List Char) :=
  (symbol? cs).or ((word? cs).map fun p ↦ (.word (String.ofList p.1), p.2))

def lex : Nat → List Char → Option (List Lexeme)
  | 0, _ => none
  | _ + 1, [] => some []
  | n + 1, c :: cs =>
    if c = ' ' then lex n cs
    else match lexeme? (c :: cs) with
      | some (l, rest) => (lex n rest).map (l :: ·)
      | none => none

/-- Every lexeme takes at least one character. -/
def scan (cs : List Char) : Option (List Lexeme) :=
  lex (cs.length + 1) cs

def read (text : String) : Option (List Lexeme) :=
  scan text.toList

example : read "f(a.x, -2.5e-7) % float[3](b[1u], c)[i] != d" =
    some [.word "f", .openParen, .word "a", .dot, .word "x", .comma, .operator .sub,
      .word "2.5e-7", .closeParen, .operator .rem, .word "float[3]", .openParen, .word "b",
      .openIndex, .word "1u", .closeIndex, .comma, .word "c", .closeParen, .openIndex, .word "i",
      .closeIndex, .operator .ne, .word "d"] := by
  decide +kernel

/-! ### What is read is taken from the front -/

theorem numberTail_append (cs : List Char) : (numberTail cs).1 ++ (numberTail cs).2 = cs := by
  fun_induction numberTail cs <;> simp_all [keep]

theorem angles_append (n : Nat) (cs : List Char) : (angles n cs).1 ++ (angles n cs).2 = cs := by
  fun_induction angles n cs <;> simp_all [keep]

theorem typeTail_append (name cs : List Char) :
    (typeTail name cs).1 ++ (typeTail name cs).2 = cs := by
  unfold typeTail
  split
  · next cs => simp [keep, angles_append]
  · split <;> simp

theorem append_of_word? {cs w rest : List Char} (h : word? cs = some (w, rest)) :
    w ++ rest = cs ∧ w ≠ [] := by
  unfold word? at h
  split at h
  · cases h
  · next c cs =>
    split at h
    · cases h
      exact ⟨congrArg (c :: ·) (numberTail_append cs), List.cons_ne_nil _ _⟩
    split at h
    · cases h
      simp [typeTail_append]
    · cases h

theorem length_of_symbol? {cs rest : List Char} {l : Lexeme} (h : symbol? cs = some (l, rest)) :
    rest.length < cs.length := by
  unfold symbol? at h
  split at h
  · cases h
  · obtain ⟨_, -, hl⟩ := Option.map_eq_some_iff.mp h
    cases hl
    simp
  · split at h
    · cases h
      exact Nat.lt_add_of_pos_right Nat.two_pos
    · obtain ⟨_, -, hl⟩ := Option.map_eq_some_iff.mp h
      cases hl
      simp

theorem length_of_lexeme? {cs rest : List Char} {l : Lexeme} (h : lexeme? cs = some (l, rest)) :
    rest.length < cs.length := by
  rcases Option.or_eq_some_iff.mp h with h | ⟨-, h⟩
  · exact length_of_symbol? h
  · obtain ⟨⟨w, rest'⟩, hw, hl⟩ := Option.map_eq_some_iff.mp h
    cases hl
    obtain ⟨rfl, hne⟩ := append_of_word? hw
    simpa using List.length_pos_iff.mpr hne

/-- More steps than characters make no difference. -/
theorem lex_eq_lex {cs : List Char} {m n : Nat} (hm : cs.length < m) (hn : cs.length < n) :
    lex m cs = lex n cs := by
  induction m generalizing cs n with
  | zero => omega
  | succ m ih =>
      obtain ⟨n, rfl⟩ := Nat.exists_eq_succ_of_ne_zero (show n ≠ 0 by omega)
      cases cs with
      | nil => rfl
      | cons c cs =>
          simp only [List.length_cons] at hm hn
          rw [lex, lex, ih (n := n) (by omega) (by omega)]
          cases hl : lexeme? (c :: cs) with
          | none => rfl
          | some p =>
              obtain ⟨l, rest⟩ := p
              have hlength := length_of_lexeme? hl
              simp only [List.length_cons] at hlength
              have hrest : lex m rest = lex n rest := ih (by omega) (by omega)
              simp only [hrest]

theorem scan_blank (cs : List Char) : scan (' ' :: cs) = scan cs := by
  rw [scan, lex, if_pos rfl]
  exact lex_eq_lex (by simp) (by simp)

theorem scan_lexeme {c : Char} {cs rest : List Char} {l : Lexeme} (hc : c ≠ ' ')
    (h : lexeme? (c :: cs) = some (l, rest)) :
    scan (c :: cs) = (scan rest).map (l :: ·) := by
  have hlength := length_of_lexeme? h
  simp only [List.length_cons] at hlength
  rw [scan, lex, if_neg hc, h, scan]
  simp only
  rw [lex_eq_lex (n := rest.length + 1) (by simp; omega) (by omega)]

/-! ### Words in front of something -/

/-- The next character, if any, does not go on with a word. -/
def Calm : List Char → Prop
  | [] => True
  | '.' :: d :: _ => d.isDigit = false
  | c :: _ => isWordChar c = false ∧ c ≠ '<'

theorem Calm.isWordChar {rest : List Char} (h : Calm rest) :
    ∀ c ∈ rest.head?, isWordChar c = false := by
  unfold Calm at h
  split at h
  · simp
  · simp [Reading.isWordChar]
  · simpa using h.1

/-- A text that is one word wherever something of a kind comes next. -/
structure IsWord (next : List Char → Prop) (w : String) : Prop where
  first : ∃ c cs, w.toList = c :: cs ∧ isWordChar c = true
  word? : ∀ rest, next rest → word? (w.toList ++ rest) = some (w.toList, rest)

/-- A word on its own. -/
abbrev Alone (w : String) : Prop :=
  IsWord Calm w

/-- A word that is called. -/
abbrev Called (w : String) : Prop :=
  IsWord (fun rest ↦ ∃ cs, rest = '(' :: cs) w

theorem Alone.called {w : String} (h : Alone w) : Called w where
  first := h.first
  word? rest hrest := by
    obtain ⟨cs, rfl⟩ := hrest
    exact h.word? _ ⟨by decide, by decide⟩

theorem single?_of_isWordChar {c : Char} (h : isWordChar c = true) : single? c = none := by
  cases hc : single? c with
  | none => rfl
  | some l =>
      have hmark : isWordChar c = false := by
        unfold single? at hc
        split at hc <;> cases hc <;> rfl
      cases h.symm.trans hmark

theorem pair?_of_isWordChar {c : Char} (h : isWordChar c = true) (d : Char) :
    pair? c d = none := by
  cases hc : pair? c d with
  | none => rfl
  | some op =>
      have hmark : isWordChar c = false := by
        unfold pair? at hc
        split at hc <;> cases hc <;> rfl
      cases h.symm.trans hmark

theorem symbol?_of_isWordChar {c : Char} (h : isWordChar c = true) (cs : List Char) :
    symbol? (c :: cs) = none := by
  cases cs with
  | nil => rw [symbol?, single?_of_isWordChar h, Option.map_none]
  | cons d cs => rw [symbol?, pair?_of_isWordChar h, single?_of_isWordChar h, Option.map_none]

theorem IsWord.scan {next : List Char → Prop} {w : String} (h : IsWord next w) {rest : List Char}
    (hrest : next rest) : scan (w.toList ++ rest) = (scan rest).map (.word w :: ·) := by
  obtain ⟨c, cs, hw, hc⟩ := h.first
  have hword := h.word? rest hrest
  have hblank : c ≠ ' ' := by
    rintro rfl
    exact absurd hc (by decide)
  rw [hw, List.cons_append] at hword ⊢
  refine scan_lexeme hblank ?_
  rw [lexeme?, symbol?_of_isWordChar hc, hword, Option.none_or, Option.map_some, ← hw,
    String.ofList_toList]

/-! ### Names -/

/-- Characters of words, without a digit in front. -/
def isIdentifier (s : String) : Bool :=
  s.toList.all isWordChar && !s.toList.head?.all Char.isDigit

/-- A name is none of the types that sizes may follow. -/
def isName (s : String) : Bool :=
  isIdentifier s && !sizedTypes.contains s

/-- An identifier is read up to its end, and then what belongs to it if it is a type. -/
theorem word?_of_isIdentifier {s : String} (h : isIdentifier s = true) {rest : List Char}
    (hrest : ∀ c ∈ rest.head?, isWordChar c = false) :
    word? (s.toList ++ rest) =
      some (s.toList ++ (typeTail s.toList rest).1, (typeTail s.toList rest).2) := by
  obtain ⟨hchars, hdigit⟩ := Bool.and_eq_true_iff.mp h
  cases hs : s.toList with
  | nil => simp [hs] at hdigit
  | cons c cs =>
      have hc : isWordChar c = true ∧ ∀ x ∈ cs, isWordChar x = true := by
        simpa [hs] using hchars
      have hfirst : c.isDigit = false := by simpa [hs] using hdigit
      rw [List.cons_append, word?, hfirst, hc.1, takeWhile_append_of_head hc.2 hrest,
        dropWhile_append_of_head hc.2 hrest]
      rfl

theorem first_of_isIdentifier {s : String} (h : isIdentifier s = true) :
    ∃ c cs, s.toList = c :: cs ∧ isWordChar c = true ∧ c.isDigit = false := by
  obtain ⟨hchars, hdigit⟩ := Bool.and_eq_true_iff.mp h
  cases hs : s.toList with
  | nil => simp [hs] at hdigit
  | cons c cs =>
      rw [hs] at hchars hdigit
      exact ⟨c, cs, rfl, List.all_eq_true.mp hchars c List.mem_cons_self, by simpa using hdigit⟩

theorem alone_of_isName {s : String} (h : isName s = true) : Alone s := by
  obtain ⟨hident, htype⟩ := Bool.and_eq_true_iff.mp h
  obtain ⟨c, cs, hs, hc, -⟩ := first_of_isIdentifier hident
  refine ⟨⟨c, cs, hs, hc⟩, fun rest hrest ↦ ?_⟩
  have htail : typeTail s.toList rest = ([], rest) := by
    unfold typeTail
    split
    · exact (hrest.2 rfl).elim
    · rw [String.ofList_toList, if_neg (by simpa using htype)]
  rw [word?_of_isIdentifier hident hrest.isWordChar, htail, List.append_nil]

theorem isIdentifier_append {s t : String} (hs : isIdentifier s = true)
    (ht : t.toList.all isWordChar = true) : isIdentifier (s ++ t) = true := by
  obtain ⟨hchars, -⟩ := Bool.and_eq_true_iff.mp hs
  obtain ⟨c, cs, hlist, -, hdigit⟩ := first_of_isIdentifier hs
  rw [isIdentifier, String.toList_append, List.all_append, hchars, ht, hlist, List.cons_append,
    List.head?_cons, Option.all_some, hdigit]
  rfl

/-- No type that sizes may follow has an underscore. -/
theorem isName_of_underscore {s : String} (hs : isIdentifier s = true) (h : '_' ∈ s.toList) :
    isName s = true := by
  have htypes : ∀ t ∈ sizedTypes, '_' ∉ t.toList := by decide
  have hs' : ¬sizedTypes.contains s = true := fun hmem ↦
    htypes s (List.contains_iff_mem.mp hmem) h
  rw [isName, hs, Bool.true_and, Bool.not_eq_true', Bool.eq_false_iff]
  exact hs'

/-! ### Numbers -/

/-- Characters that a reader of words passes over. -/
def Passes (scanner : List Char → List Char × List Char) (s : List Char) : Prop :=
  ∀ rest, scanner (s ++ rest) = (s ++ (scanner rest).1, (scanner rest).2)

theorem Passes.append {scanner : List Char → List Char × List Char} {s t : List Char}
    (hs : Passes scanner s) (ht : Passes scanner t) : Passes scanner (s ++ t) := by
  intro rest
  rw [List.append_assoc, hs, ht, List.append_assoc]

theorem isWordChar_of_isDigit {c : Char} (h : c.isDigit = true) : isWordChar c = true := by
  simp [isWordChar, Char.isAlphanum, h]

theorem numberTail_of_calm {rest : List Char} (h : Calm rest) : numberTail rest = ([], rest) := by
  unfold Calm at h
  split at h
  · rfl
  · next d cs => rw [numberTail, if_neg (by simp [h])]
  · next c cs hdot =>
    rw [numberTail, if_neg (by simp [h.1])]
    · rintro - rfl
      exact absurd h.1 (by decide)
    · rintro d cs' rfl rfl
      exact hdot d cs' rfl rfl

/-- A character of a word, other than the mark of an exponent in front of a sign. -/
theorem numberTail_cons {c : Char} (hc : isWordChar c = true) {cs : List Char}
    (hmark : c = 'e' → cs.head? ≠ some '-') : numberTail (c :: cs) = keep c (numberTail cs) := by
  rw [numberTail, if_pos hc]
  · rintro cs' rfl rfl
    exact hmark rfl rfl
  · rintro d cs' rfl
    exact absurd hc (by decide)

theorem passes_digits {s : List Char} (hs : ∀ c ∈ s, c.isDigit = true) : Passes numberTail s := by
  induction s with
  | nil => exact fun _ ↦ rfl
  | cons c s ih =>
      intro rest
      have hc : c.isDigit = true := hs c List.mem_cons_self
      have hmark : c = 'e' → (s ++ rest).head? ≠ some '-' := by
        rintro rfl
        exact absurd hc (by decide)
      rw [List.cons_append, numberTail_cons (isWordChar_of_isDigit hc) hmark,
        ih fun x hx ↦ hs x (List.mem_cons_of_mem c hx)]
      rfl

theorem digits_of_whole? {s : List Char} {n : Nat} (h : whole? s = some n) : Digits s := by
  rw [whole?] at h
  split at h
  · next hs => exact ⟨hs.1, List.all_eq_true.mp hs.2⟩
  · cases h

theorem passes_exponent {s : List Char} {k : Int} (h : exponent? s = some k) :
    Passes numberTail ('e' :: s) := by
  unfold exponent? at h
  split at h <;> obtain ⟨n, hn, -⟩ := Option.map_eq_some_iff.mp h
  · next s =>
    intro rest
    rw [List.cons_append, List.cons_append, numberTail, passes_digits (digits_of_whole? hn).2]
    rfl
  · next hminus =>
    intro rest
    have hmark : (s ++ rest).head? ≠ some '-' := by
      obtain ⟨hne, -⟩ := digits_of_whole? hn
      cases s with
      | nil => exact (hne rfl).elim
      | cons c s =>
          rintro hhead
          obtain rfl : c = '-' := by simpa using hhead
          exact hminus s rfl
    rw [List.cons_append, numberTail_cons (by decide) fun _ ↦ hmark,
      passes_digits (digits_of_whole? hn).2]
    rfl

theorem passes_scale {s : List Char} {k : Int} (h : scale? s = some k) : Passes numberTail s := by
  unfold scale? at h
  split at h
  · exact fun _ ↦ rfl
  · exact passes_exponent h
  · cases h

theorem passes_point {s : List Char} (hs : Digits s) : Passes numberTail ('.' :: s) := by
  intro rest
  obtain ⟨hne, hdigits⟩ := hs
  cases s with
  | nil => exact (hne rfl).elim
  | cons d s =>
      rw [List.cons_append, List.cons_append, numberTail, if_pos (hdigits d List.mem_cons_self),
        passes_digits fun c hc ↦ hdigits c (List.mem_cons_of_mem d hc)]
      rfl

/-- The digits at the front of a text, and the rest of it. -/
theorem passes_of_dropWhile {s : List Char} (h : Passes numberTail (s.dropWhile Char.isDigit)) :
    Passes numberTail s := by
  rw [← List.takeWhile_append_dropWhile (p := Char.isDigit) (l := s)]
  exact (passes_digits fun _ ↦ List.mem_takeWhile_imp).append h

theorem passes_of_number? {s : List Char} {k : Constant} (h : number? s = some k) :
    Passes numberTail s := by
  apply passes_of_dropWhile
  rw [number?] at h
  split at h
  · cases h
  split at h
  · next hrest =>
    rw [hrest]
    exact fun _ ↦ rfl
  · next rest hrest =>
    split at h
    · next hnil =>
      rw [hrest, hnil]
      exact fun rest ↦ numberTail_cons (by decide) (by simp)
    · cases h
  · next rest hrest =>
    dsimp only at h
    split at h
    · cases h
    · next hfraction =>
      obtain ⟨e, he, -⟩ := Option.map_eq_some_iff.mp h
      have hpoint := passes_point ⟨hfraction, fun _ ↦ List.mem_takeWhile_imp⟩
      rw [hrest, ← List.takeWhile_append_dropWhile (p := Char.isDigit) (l := rest),
        ← List.cons_append]
      exact hpoint.append (passes_scale he)
  · obtain ⟨e, he, -⟩ := Option.map_eq_some_iff.mp h
    exact passes_scale he

/-- Every number that has a value is one word. -/
theorem alone_of_number? {s : String} {k : Constant} (h : number? s.toList = some k) :
    Alone s := by
  obtain ⟨d, rest, hs, hd⟩ := exists_digit_of_number? h
  refine ⟨⟨d, rest, hs, isWordChar_of_isDigit hd⟩, fun next hnext ↦ ?_⟩
  have hpasses := passes_of_number? h next
  have hmark : d = 'e' → (rest ++ next).head? ≠ some '-' := by
    rintro rfl
    exact absurd hd (by decide)
  rw [hs, List.cons_append, numberTail_cons (isWordChar_of_isDigit hd) hmark,
    numberTail_of_calm hnext, List.append_nil] at hpasses
  rw [hs, List.cons_append, word?, if_pos hd, hpasses]

theorem alone_toString (n : Nat) : Alone (toString n) := by
  refine alone_of_number? (k := .int (numeral (Nat.toDigits 10 n))) ?_
  rw [toList_toString]
  exact number?_int (digits_toDigits n)

theorem alone_uint (n : Nat) : Alone (toString n ++ "u") := by
  refine alone_of_number? (k := .uint (numeral (Nat.toDigits 10 n))) ?_
  have hmark : "u".toList = ['u'] := by decide
  rw [String.toList_append, toList_toString, hmark]
  exact number?_uint (digits_toDigits n)

/-- What is not finite is written as a name. -/
theorem alone_text (x : Binary32) : Alone x.text := by
  by_cases hx : x.isFinite = true
  · obtain ⟨q, hq, -⟩ := number?_text hx
    exact alone_of_number? hq
  · have hbound : x.exponentField < 256 :=
      Nat.div_lt_of_lt_mul (Nat.mod_lt _ (by decide))
    have hexponent : x.exponentField = 255 := by
      rw [Binary32.isFinite, decide_eq_true_eq] at hx
      omega
    rw [Binary32.text, Binary32.isNaN, Binary32.isInfinite, hexponent]
    by_cases hfraction : x.fraction = 0
    · rw [hfraction, if_neg (by decide), if_pos (by decide)]
      exact alone_of_isName (by decide)
    · rw [if_pos (by simpa using hfraction)]
      exact alone_of_isName (by decide)

/-! ### Types -/

/-- The sizes of an array behind the name of a type. -/
theorem called_sized {base sizes : String} (hbase : base ∈ sizedTypes)
    (hchars : ∀ c ∈ sizes.toList, isSizeChar c = true)
    (hfirst : ∀ c ∈ sizes.toList.head?, isWordChar c = false ∧ c ≠ '<') :
    Called (base ++ sizes) := by
  have hident : isIdentifier base = true :=
    (show ∀ s ∈ sizedTypes, isIdentifier s = true by decide) base hbase
  obtain ⟨c, cs, hs, hc, -⟩ := first_of_isIdentifier hident
  refine ⟨⟨c, cs ++ sizes.toList, by rw [String.toList_append, hs, List.cons_append], hc⟩, ?_⟩
  rintro _ ⟨rest, rfl⟩
  have hnext : ∀ x ∈ (sizes.toList ++ '(' :: rest).head?, isWordChar x = false ∧ x ≠ '<' := by
    cases hsizes : sizes.toList with
    | nil => simp [isWordChar]
    | cons d ds =>
        rw [hsizes] at hfirst
        simpa using hfirst d rfl
  have htail : typeTail base.toList (sizes.toList ++ '(' :: rest) =
      (sizes.toList, '(' :: rest) := by
    have hend : ∀ x ∈ ('(' :: rest).head?, isSizeChar x = false := by simp [isSizeChar]
    unfold typeTail
    split
    · next hangle => exact ((hnext '<' (by rw [hangle]; rfl)).2 rfl).elim
    · rw [String.ofList_toList, if_pos (List.contains_iff_mem.mpr hbase),
        takeWhile_append_of_head hchars hend, dropWhile_append_of_head hchars hend]
  rw [String.toList_append, List.append_assoc,
    word?_of_isIdentifier hident fun x hx ↦ (hnext x hx).1, htail]

/-- Characters with a bracket that closes for every bracket that opens. -/
def Balanced (s : String) : Prop :=
  ∀ n, Passes (angles n) s.toList

theorem Balanced.append {s t : String} (hs : Balanced s) (ht : Balanced t) :
    Balanced (s ++ t) := by
  intro n
  rw [String.toList_append]
  exact (hs n).append (ht n)

theorem passes_angles (n : Nat) {s : List Char} (hopen : '<' ∉ s) (hclose : '>' ∉ s) :
    Passes (angles n) s := by
  induction s with
  | nil => exact fun _ ↦ rfl
  | cons c s ih =>
      simp only [List.mem_cons, not_or] at hopen hclose
      intro rest
      rw [List.cons_append, angles]
      · rw [ih hopen.2 hclose.2]
        rfl
      · exact fun h ↦ hopen.1 h.symm
      · exact fun _ h ↦ (hclose.1 h.symm).elim
      · exact fun _ _ h ↦ (hclose.1 h.symm).elim

theorem balanced_of_notMem {s : String} (hopen : '<' ∉ s.toList) (hclose : '>' ∉ s.toList) :
    Balanced s :=
  fun n ↦ passes_angles n hopen hclose

theorem Balanced.angle {s : String} (h : Balanced s) : Balanced ("<" ++ s ++ ">") := by
  intro n rest
  have htext : ("<" ++ s ++ ">").toList = '<' :: (s.toList ++ ['>']) := by simp
  have hclose : angles (n + 1) ('>' :: rest) = keep '>' (angles n rest) := rfl
  rw [htext, List.cons_append, angles, List.append_assoc, h (n + 1), List.singleton_append, hclose]
  simp [keep]

/-- A type with its arguments in angle brackets is one word, whatever comes next. -/
theorem isWord_generic {name inner : String} (hname : isIdentifier name = true)
    (h : Balanced inner) (next : List Char → Prop) :
    IsWord next (name ++ "<" ++ inner ++ ">") := by
  have htext : (name ++ "<" ++ inner ++ ">").toList =
      name.toList ++ '<' :: (inner.toList ++ ['>']) := by simp
  obtain ⟨c, cs, hs, hc, -⟩ := first_of_isIdentifier hname
  refine ⟨⟨c, _, by rw [htext, hs, List.cons_append], hc⟩, fun rest _ ↦ ?_⟩
  have hclose : angles 0 ('>' :: rest) = (['>'], rest) := rfl
  have htail : typeTail name.toList ('<' :: (inner.toList ++ '>' :: rest)) =
      ('<' :: (inner.toList ++ ['>']), rest) := by
    rw [typeTail, h 0, hclose]
    rfl
  rw [htext, List.append_assoc, List.cons_append, List.append_assoc, List.singleton_append,
    word?_of_isIdentifier hname (by simp [isWordChar]), htail]

end Shading.Reading
