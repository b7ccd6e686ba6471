import Shading.Proofs.Reading.Lexer
import Shading.Proofs.Reading.RoundTrip

/-!
# Reading texts of expressions

The tokens of an expression are found again in its text, if every word in it is one where it stands.
The proof follows the expression: what is written for a part is read as its lexemes, whatever comes
next, as long as that does not go on with a word.

Main statement: the text of an expression is read as its lexemes.
-/

namespace Shading.Reading

/-! ### Expressions -/

mutual

/-- Every word of an expression is a word where it stands. -/
def Scannable : Code.Expr → Prop
  | .word s => Alone s
  | .unary _ a => Scannable a
  | .binary _ a b => Scannable a ∧ Scannable b
  | .call callee args => Called callee ∧ ScannableAll args
  | .member a name => Scannable a ∧ isName name = true
  | .index a i => Scannable a ∧ Scannable i
  | .suffixed (.word s) suffix => Alone (s ++ suffix)
  | .suffixed _ _ => False

def ScannableAll : List Code.Expr → Prop
  | [] => True
  | e :: es => Scannable e ∧ ScannableAll es

end

def chars (ts : List Code.Token) : List Char :=
  ts.flatMap fun t ↦ t.text.toList

theorem toList_text (e : Code.Expr) : e.text.toList = chars e.tokens := by
  rw [Code.Expr.text, chars]
  induction e.tokens with
  | nil => rfl
  | cons t ts ih =>
      rw [List.map_cons, String.join_cons, String.toList_append, ih, List.flatMap_cons]

/-- Characters that are read as lexemes, whatever is calm comes next. -/
structure Scans (s : List Char) (ls : List Lexeme) : Prop where
  /-- No operator in front goes on here. -/
  first : ∃ c cs, s = c :: cs ∧ c ≠ '='
  scan_append : ∀ rest, Calm rest → scan (s ++ rest) = (scan rest).map (ls ++ ·)

theorem scan_symbol {c : Char} {l : Lexeme} (hl : single? c = some l) {rest : List Char}
    (hrest : ∀ d ∈ rest.head?, pair? c d = none) :
    scan (c :: rest) = (scan rest).map (l :: ·) := by
  have hblank : c ≠ ' ' := by
    rintro rfl
    cases hl
  refine scan_lexeme hblank ?_
  cases rest with
  | nil => rw [lexeme?, symbol?, hl]; rfl
  | cons d rest => rw [lexeme?, symbol?, hrest d rfl, hl]; rfl

theorem scan_operator (op : BinaryOp) (rest : List Char) :
    scan ((Code.Token.binary op).text.toList ++ rest) = (scan rest).map (.operator op :: ·) := by
  have htext : (Code.Token.binary op).text.toList ++ rest =
      ' ' :: (op.symbol.toList ++ ' ' :: rest) := by
    simp [Code.Token.text]
  rw [htext, scan_blank, ← scan_blank rest]
  cases op <;> exact scan_lexeme (by decide) rfl

theorem calm_cons {c : Char} (hword : isWordChar c = false) (hmark : c ≠ '<' ∧ c ≠ '.')
    (cs : List Char) : Calm (c :: cs) := by
  unfold Calm
  split
  · trivial
  · next heq => exact (hmark.2 (List.cons.inj heq).1).elim
  · next heq =>
    obtain ⟨rfl, -⟩ := List.cons.inj heq
    exact ⟨hword, hmark.1⟩

theorem pair?_bang {d : Char} (hd : d ≠ '=') : pair? '!' d = none := by
  unfold pair?
  split <;> simp_all

theorem Alone.scans {w : String} (h : Alone w) : Scans w.toList [.word w] where
  first := by
    obtain ⟨c, cs, hw, hc⟩ := h.first
    refine ⟨c, cs, hw, ?_⟩
    rintro rfl
    exact absurd hc (by decide)
  scan_append _ hrest := h.scan hrest

section Scans

variable {s t : List Char} {ls ms : List Lexeme}

theorem Scans.first_append (h : Scans s ls) (t : List Char) :
    ∃ c cs, s ++ t = c :: cs ∧ c ≠ '=' := by
  obtain ⟨c, cs, rfl, hc⟩ := h.first
  exact ⟨c, cs ++ t, rfl, hc⟩

theorem Scans.paren (h : Scans s ls) :
    Scans ('(' :: (s ++ [')'])) (.openParen :: (ls ++ [.closeParen])) where
  first := ⟨_, _, rfl, by decide⟩
  scan_append rest _ := by
    have hclose : scan (')' :: rest) = (scan rest).map (.closeParen :: ·) :=
      scan_symbol rfl fun _ _ ↦ rfl
    rw [List.cons_append, scan_symbol rfl fun _ _ ↦ rfl, List.append_assoc, List.singleton_append,
      h.scan_append _ (calm_cons rfl (by decide) rest), hclose]
    simp [Function.comp_def]

theorem Scans.operand {e : Code.Expr} (h : Scans (chars e.tokens) (written e)) (parens : Bool) :
    Scans (chars (Code.Expr.wrap parens e.tokens)) (operand parens e) := by
  cases parens with
  | false => exact h
  | true =>
      have htext : chars (Code.Expr.wrap true e.tokens) = '(' :: (chars e.tokens ++ [')']) := by
        simp [chars, Code.Expr.wrap, Code.Token.text]
      rw [htext, operand_true]
      exact h.paren

theorem Scans.unary (h : Scans s ls) (op : UnaryOp) :
    Scans ((Code.Token.unary op).text.toList ++ s) (lexemeOf (.unary op) :: ls) := by
  obtain ⟨c, cs, rfl, hc⟩ := h.first
  cases op with
  | neg =>
      refine ⟨⟨'-', _, rfl, by decide⟩, fun rest hrest ↦ ?_⟩
      change scan ('-' :: (c :: cs ++ rest)) = _
      rw [scan_symbol rfl fun _ _ ↦ rfl, h.scan_append rest hrest]
      simp [Function.comp_def, lexemeOf]
  | not =>
      refine ⟨⟨'!', _, rfl, by decide⟩, fun rest hrest ↦ ?_⟩
      have hpair : ∀ d ∈ (c :: cs ++ rest).head?, pair? '!' d = none := by
        simpa using pair?_bang hc
      change scan ('!' :: (c :: cs ++ rest)) = _
      rw [scan_symbol rfl hpair, h.scan_append rest hrest]
      simp [Function.comp_def, lexemeOf]

theorem Scans.binary (hs : Scans s ls) (op : BinaryOp) (ht : Scans t ms) :
    Scans (s ++ ((Code.Token.binary op).text.toList ++ t)) (ls ++ .operator op :: ms) where
  first := hs.first_append _
  scan_append rest hrest := by
    have hcalm : Calm ((Code.Token.binary op).text.toList ++ (t ++ rest)) := by
      rw [Code.Token.text, String.append_assoc, String.toList_append]
      exact calm_cons rfl (by decide) _
    rw [List.append_assoc, List.append_assoc, hs.scan_append _ hcalm, scan_operator,
      ht.scan_append rest hrest]
    simp [Function.comp_def]

theorem Scans.member (h : Scans s ls) {name : String} (hname : isName name = true) :
    Scans (s ++ '.' :: name.toList) (ls ++ [.dot, .word name]) where
  first := h.first_append _
  scan_append rest hrest := by
    obtain ⟨c, cs, hw, -, hdigit⟩ := first_of_isIdentifier (Bool.and_eq_true_iff.mp hname).1
    have hcalm : Calm ('.' :: (name.toList ++ rest)) := by
      rw [hw]
      exact hdigit
    rw [List.append_assoc, List.cons_append, h.scan_append _ hcalm,
      scan_symbol rfl fun _ _ ↦ rfl, (alone_of_isName hname).scan hrest]
    simp [Function.comp_def]

theorem Scans.index (hs : Scans s ls) (ht : Scans t ms) :
    Scans (s ++ '[' :: (t ++ [']'])) (ls ++ .openIndex :: (ms ++ [.closeIndex])) where
  first := hs.first_append _
  scan_append rest _ := by
    have hclose : scan (']' :: rest) = (scan rest).map (.closeIndex :: ·) :=
      scan_symbol rfl fun _ _ ↦ rfl
    rw [List.append_assoc, List.cons_append, List.append_assoc, List.singleton_append,
      hs.scan_append _ (calm_cons rfl (by decide) _), scan_symbol rfl fun _ _ ↦ rfl,
      ht.scan_append _ (calm_cons rfl (by decide) _), hclose]
    simp [Function.comp_def]

/-- Arguments are read up to the parenthesis that closes the call. -/
def ScansArguments (s : List Char) (ls : List Lexeme) : Prop :=
  ∀ rest, scan (s ++ ')' :: rest) = (scan rest).map (ls ++ .closeParen :: ·)

theorem scansArguments_nil : ScansArguments [] [] :=
  fun _ ↦ scan_symbol rfl fun _ _ ↦ rfl

theorem Scans.arguments (h : Scans s ls) : ScansArguments s ls := by
  intro rest
  rw [h.scan_append _ (calm_cons rfl (by decide) rest), ← List.nil_append (')' :: rest),
    scansArguments_nil]
  simp [Function.comp_def]

theorem Scans.cons_arguments (hs : Scans s ls) (ht : ScansArguments t ms) :
    ScansArguments (s ++ ',' :: ' ' :: t) (ls ++ .comma :: ms) := by
  intro rest
  rw [List.append_assoc, List.cons_append, List.cons_append,
    hs.scan_append _ (calm_cons rfl (by decide) _), scan_symbol rfl fun _ _ ↦ rfl, scan_blank, ht]
  simp [Function.comp_def]

theorem ScansArguments.call (h : ScansArguments s ls) {callee : String} (hcallee : Called callee) :
    Scans (callee.toList ++ '(' :: (s ++ [')']))
      (.word callee :: .openParen :: (ls ++ [.closeParen])) where
  first := by
    obtain ⟨c, cs, hw, hc⟩ := hcallee.first
    refine ⟨c, _, by rw [hw, List.cons_append], ?_⟩
    rintro rfl
    exact absurd hc (by decide)
  scan_append rest _ := by
    rw [List.append_assoc, List.cons_append, hcallee.scan ⟨_, rfl⟩, scan_symbol rfl fun _ _ ↦ rfl,
      List.append_assoc, List.singleton_append, h]
    simp [Function.comp_def]

end Scans

mutual

theorem scans_written : ∀ e : Code.Expr, Scannable e → Scans (chars e.tokens) (written e)
  | .word s, h => by
    rw [Scannable] at h
    rw [written_word, Code.Expr.tokens, chars, List.flatMap_singleton]
    exact h.scans
  | .unary op a, h => by
    rw [Scannable] at h
    rw [written_unary, Code.Expr.tokens, chars, List.flatMap_cons]
    exact ((scans_written a h).operand _).unary op
  | .binary op a b, h => by
    rw [Scannable] at h
    rw [written_binary, Code.Expr.tokens, chars, List.flatMap_append, List.flatMap_cons]
    exact ((scans_written a h.1).operand _).binary op ((scans_written b h.2).operand _)
  | .call callee args, h => by
    rw [Scannable] at h
    have htext : chars (Code.Expr.call callee args).tokens =
        callee.toList ++ '(' :: (chars (Code.Expr.tokensSeparated args) ++ [')']) := by
      simp [chars, Code.Expr.tokens, Code.Token.text]
    rw [written_call, htext]
    exact (scansArguments_writtenAll args h.2).call h.1
  | .member a name, h => by
    rw [Scannable] at h
    have htext : chars (Code.Expr.member a name).tokens =
        chars (Code.Expr.wrap (a.grade != .atomic) a.tokens) ++ '.' :: name.toList := by
      simp [chars, Code.Expr.tokens, Code.Token.text]
    rw [written_member, htext]
    exact ((scans_written a h.1).operand _).member h.2
  | .index a i, h => by
    rw [Scannable] at h
    have htext : chars (Code.Expr.index a i).tokens =
        chars (Code.Expr.wrap (a.grade != .atomic) a.tokens) ++
          '[' :: (chars i.tokens ++ [']']) := by
      simp [chars, Code.Expr.tokens, Code.Token.text]
    rw [written_index, htext]
    exact ((scans_written a h.1).operand _).index (scans_written i h.2)
  | .suffixed a suffix, h => by
    cases a with
    | word s =>
        rw [Scannable] at h
        have htext : chars (Code.Expr.suffixed (.word s) suffix).tokens = (s ++ suffix).toList := by
          simp [chars, Code.Expr.tokens, Code.Token.text]
        rw [written_suffixed, htext]
        exact h.scans
    | _ => exact absurd h (by simp [Scannable])

theorem scansArguments_writtenAll : ∀ es : List Code.Expr, ScannableAll es →
    ScansArguments (chars (Code.Expr.tokensSeparated es)) (writtenAll es)
  | [], _ => scansArguments_nil
  | [e], h => by
    rw [ScannableAll] at h
    exact (scans_written e h.1).arguments
  | e :: e' :: es, h => by
    rw [ScannableAll] at h
    have htext : chars (Code.Expr.tokensSeparated (e :: e' :: es)) =
        chars e.tokens ++ ',' :: ' ' :: chars (Code.Expr.tokensSeparated (e' :: es)) := by
      simp [chars, Code.Expr.tokensSeparated, Code.Token.text]
    rw [writtenAll_cons_cons, htext]
    exact (scans_written e h.1).cons_arguments (scansArguments_writtenAll (e' :: es) h.2)

end

/-- The text of a scannable expression is read as its lexemes. -/
theorem read_text {e : Code.Expr} (h : Scannable e) : read e.text = some (lexemes e.tokens) := by
  have hscan := (scans_written e h).scan_append [] trivial
  have hempty : scan [] = some [] := rfl
  rw [List.append_nil, hempty, Option.map_some, List.append_nil] at hscan
  rw [read, toList_text, hscan, written]

end Shading.Reading
