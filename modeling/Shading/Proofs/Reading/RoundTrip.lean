import Shading.Proofs.Reading.Regroup

/-!
# Written expressions read back

The parser reads the lexemes of a written expression as the tree of the expression, regrouped where
parentheses are left out.  The proof follows the grades: what is written without parentheses at
some level of the grammar is read at that level, whatever comes next, as long as the next lexeme
does not belong to the level itself.
-/

namespace Shading.Reading

open Code (Grade Side gradeOf needsParens)

/-! ### Written lexemes -/

theorem lexemes_cons {t : Code.Token} (h : ∀ s, t ≠ .word s) (ts : List Code.Token) :
    lexemes (t :: ts) = lexemeOf t :: lexemes ts := by
  cases t with
  | word s => exact (h s rfl).elim
  | _ => rfl

theorem lexemes_append_cons {t : Code.Token} (h : ∀ s, t ≠ .word s) (ts us : List Code.Token) :
    lexemes (ts ++ t :: us) = lexemes ts ++ lexemeOf t :: lexemes us := by
  induction ts with
  | nil => exact lexemes_cons h us
  | cons u ts ih =>
      cases u with
      | word s =>
          rw [List.cons_append, lexemes, lexemes, ih]
          cases hl : lexemes ts with
          | nil =>
              cases t with
              | word s => exact (h s rfl).elim
              | unary op => cases op <;> rfl
              | _ => rfl
          | cons l ls => cases l <;> rfl
      | _ => simp only [List.cons_append, lexemes, ih]

def written (e : Code.Expr) : List Lexeme :=
  lexemes e.tokens

/-- The lexemes of an operand that may stand in parentheses. -/
def operand (parens : Bool) (e : Code.Expr) : List Lexeme :=
  lexemes (Code.Expr.wrap parens e.tokens)

def writtenAll (es : List Code.Expr) : List Lexeme :=
  lexemes (Code.Expr.tokensSeparated es)

@[simp] theorem operand_false (e : Code.Expr) : operand false e = written e := rfl

@[simp] theorem operand_true (e : Code.Expr) :
    operand true e = .openParen :: (written e ++ [.closeParen]) := by
  simp only [operand, Code.Expr.wrap, if_true, List.cons_append]
  rw [lexemes_cons (by simp), lexemes_append_cons (by simp)]
  rfl

theorem written_word (s : String) : written (.word s) = [.word s] := by
  simp [written, Code.Expr.tokens, lexemes]

theorem written_suffixed (s suffix : String) :
    written (.suffixed (.word s) suffix) = [.word (s ++ suffix)] := by
  simp [written, Code.Expr.tokens, lexemes]

theorem written_unary (op : UnaryOp) (a : Code.Expr) :
    written (.unary op a) = lexemeOf (.unary op) :: operand (a.grade != .atomic) a := by
  rw [written, Code.Expr.tokens, lexemes_cons (by simp)]
  rfl

theorem written_binary (op : BinaryOp) (a b : Code.Expr) :
    written (.binary op a b) = operand (needsParens op .left a.grade) a ++
      .operator op :: operand (needsParens op .right b.grade) b := by
  rw [written, Code.Expr.tokens, lexemes_append_cons (by simp)]
  rfl

theorem written_call (callee : String) (args : List Code.Expr) :
    written (.call callee args) =
      .word callee :: .openParen :: (writtenAll args ++ [.closeParen]) := by
  have h : lexemes (.openParen :: (Code.Expr.tokensSeparated args ++ [.closeParen])) =
      .openParen :: (writtenAll args ++ [.closeParen]) := by
    rw [lexemes_cons (by simp), lexemes_append_cons (by simp)]
    rfl
  simp only [written, Code.Expr.tokens, List.cons_append, lexemes] at h ⊢
  rw [h]

theorem written_member (a : Code.Expr) (name : String) :
    written (.member a name) = operand (a.grade != .atomic) a ++ [.dot, .word name] := by
  rw [written, Code.Expr.tokens, lexemes_append_cons (by simp)]
  rfl

theorem written_index (a i : Code.Expr) :
    written (.index a i) =
      operand (a.grade != .atomic) a ++ .openIndex :: (written i ++ [.closeIndex]) := by
  rw [written, Code.Expr.tokens, List.append_assoc, List.cons_append,
    lexemes_append_cons (by simp), lexemes_append_cons (by simp)]
  rfl

theorem writtenAll_cons_cons (e e' : Code.Expr) (es : List Code.Expr) :
    writtenAll (e :: e' :: es) = written e ++ .comma :: writtenAll (e' :: es) := by
  rw [writtenAll, Code.Expr.tokensSeparated, lexemes_append_cons (by simp)]
  · rfl
  · simp

/-! ### What may come next -/

/-- The next lexeme, if any, neither calls what is read nor accesses a part of it. -/
def Ends : List Lexeme → Prop
  | .openParen :: _ => False
  | .dot :: _ => False
  | .openIndex :: _ => False
  | _ => True

/-- The next lexeme, if any, is none of the operators. -/
def Avoids (joins : BinaryOp → Bool) : List Lexeme → Prop
  | .operator op :: _ => joins op = false
  | _ => True

/-- The next lexeme, if any, closes or separates expressions. -/
def Closes : List Lexeme → Prop
  | [] => True
  | .closeParen :: _ => True
  | .closeIndex :: _ => True
  | .comma :: _ => True
  | _ => False

theorem Closes.ends {ls : List Lexeme} (h : Closes ls) : Ends ls := by
  unfold Closes at h
  split at h <;> trivial

theorem Closes.avoids {ls : List Lexeme} (h : Closes ls) (joins : BinaryOp → Bool) :
    Avoids joins ls := by
  unfold Closes at h
  split at h <;> trivial

/-! ### Chains of operators -/

theorem chain_of_avoids {joins : BinaryOp → Bool} {item : List Lexeme → Outcome Tree}
    {ls : List Lexeme} (h : Avoids joins ls) {n : Nat} (hn : 0 < n) (t : Tree) :
    chain joins item n t ls = some (t, ls) := by
  obtain ⟨n, rfl⟩ := Nat.exists_eq_succ_of_ne_zero (Nat.ne_of_gt hn)
  cases ls with
  | nil => rfl
  | cons l ls =>
      cases l with
      | operator op =>
          have hop : joins op = false := h
          simp [chain, hop]
      | _ => rfl

theorem chain_operator {joins : BinaryOp → Bool} {item : List Lexeme → Outcome Tree}
    {op : BinaryOp} (hop : joins op = true) {ls rest : List Lexeme} {u : Tree}
    (hu : item ls = some (u, rest)) (n : Nat) (t : Tree) :
    chain joins item (n + 1) t (.operator op :: ls) = chain joins item n (.binary op t u) rest := by
  simp [chain, hop, hu]

/-- A part of a chain.  Wherever it stands in the chain the parser goes on after it: at the start
with its tree, and behind the operator `lead` with its tree grafted to what was read before. -/
structure Segment (lead : BinaryOp) (item : List Lexeme → Outcome Tree)
    (quiet : List Lexeme → Prop) (ls : List Lexeme) (t : Tree) : Prop where
  starts : ∀ k rest, quiet rest → ls.length ≤ k → ∃ m, k ≤ m + ls.length ∧
    sequence (regroups lead) item k (ls ++ rest) = chain (regroups lead) item m t rest
  continues : ∀ k left rest, quiet rest → ls.length < k → ∃ m, k ≤ m + ls.length + 1 ∧
    chain (regroups lead) item k left (.operator lead :: (ls ++ rest)) =
      chain (regroups lead) item m (Tree.graft lead left t) rest

section Segments

variable {lead : BinaryOp} {item : List Lexeme → Outcome Tree} {quiet : List Lexeme → Prop}
variable {ls ls' : List Lexeme} {t t' : Tree}

theorem segment_of_item (hlead : regroups lead lead = true)
    (hitem : ∀ rest, quiet rest → item (ls ++ rest) = some (t, rest))
    (ht : t.isBy (regroups lead) = false) : Segment lead item quiet ls t where
  starts k rest hrest _ := ⟨k, by omega, by simp [sequence, hitem rest hrest]⟩
  continues k left rest hrest hk := by
    obtain ⟨k, rfl⟩ := Nat.exists_eq_succ_of_ne_zero (Nat.ne_zero_of_lt hk)
    refine ⟨k, by omega, ?_⟩
    rw [chain_operator hlead (hitem rest hrest), Tree.graft_of_isBy_eq_false ht]

/-- Two parts around the operator that regroups. -/
theorem Segment.append (h : Segment lead item quiet ls t) (h' : Segment lead item quiet ls' t')
    (hlead : regroups lead lead = true) (hquiet : ∀ rest, quiet (.operator lead :: rest)) :
    Segment lead item quiet (ls ++ .operator lead :: ls') (Tree.graft lead t t') where
  starts k rest hrest hk := by
    simp only [List.length_append, List.length_cons] at hk ⊢
    obtain ⟨m, hm, hstart⟩ := h.starts k (.operator lead :: (ls' ++ rest)) (hquiet _) (by omega)
    obtain ⟨m', hm', hrest'⟩ := h'.continues m t rest hrest (by omega)
    refine ⟨m', by omega, ?_⟩
    rw [List.append_assoc, List.cons_append, hstart, hrest']
  continues k left rest hrest hk := by
    simp only [List.length_append, List.length_cons] at hk ⊢
    obtain ⟨m, hm, hstart⟩ :=
      h.continues k left (.operator lead :: (ls' ++ rest)) (hquiet _) (by omega)
    obtain ⟨m', hm', hrest'⟩ := h'.continues m (Tree.graft lead left t) rest hrest (by omega)
    refine ⟨m', by omega, ?_⟩
    rw [List.append_assoc, List.cons_append, hstart, hrest', Tree.graft_graft hlead]

/-- A part and one more operand behind another operator of the chain. -/
theorem Segment.operator (h : Segment lead item quiet ls t) {op : BinaryOp}
    (hop : regroups lead op = true) (hquiet : ∀ rest, quiet (.operator op :: rest))
    (hitem : ∀ rest, quiet rest → item (ls' ++ rest) = some (t', rest)) :
    Segment lead item quiet (ls ++ .operator op :: ls') (.binary op t t') where
  starts k rest hrest hk := by
    simp only [List.length_append, List.length_cons] at hk ⊢
    obtain ⟨m, hm, hstart⟩ := h.starts k (.operator op :: (ls' ++ rest)) (hquiet _) (by omega)
    obtain ⟨m, rfl⟩ := Nat.exists_eq_succ_of_ne_zero (show m ≠ 0 by omega)
    refine ⟨m, by omega, ?_⟩
    rw [List.append_assoc, List.cons_append, hstart, chain_operator hop (hitem rest hrest)]
  continues k left rest hrest hk := by
    simp only [List.length_append, List.length_cons] at hk ⊢
    obtain ⟨m, hm, hstart⟩ :=
      h.continues k left (.operator op :: (ls' ++ rest)) (hquiet _) (by omega)
    obtain ⟨m, rfl⟩ := Nat.exists_eq_succ_of_ne_zero (show m ≠ 0 by omega)
    refine ⟨m, by omega, ?_⟩
    rw [List.append_assoc, List.cons_append, hstart, chain_operator hop (hitem rest hrest),
      Tree.graft_binary hop]

end Segments

/-! ### Levels of the grammar -/

/-- Read as something that can be accessed further. -/
def ReadsAccess (ls : List Lexeme) (t : Tree) : Prop :=
  ∀ n rest, rest.head? ≠ some .openParen → 8 * ls.length < n →
    ∃ m, n ≤ m + 8 * ls.length ∧ unary n (ls ++ rest) = accesses m t rest

/-- Read as an operand that is at most prefixed. -/
def ReadsUnary (ls : List Lexeme) (t : Tree) : Prop :=
  ∀ n rest, Ends rest → 8 * ls.length < n → unary n (ls ++ rest) = some (t, rest)

/-- Read as a part of a product. -/
def ReadsProduct (ls : List Lexeme) (t : Tree) : Prop :=
  ∀ n, 8 * ls.length < n → Segment .mul (unary n) Ends ls t

/-- Nothing but arithmetic follows the first operand, so this is no comparison. -/
def ReadsArithmetic (ls : List Lexeme) : Prop :=
  ∀ n rest, Ends rest → Avoids isOther rest → 8 * ls.length < n →
    ∃ t rest', unary n (ls ++ rest) = some (t, rest') ∧ Avoids isOther rest'

/-- Read as a part of a sum. -/
def ReadsSum (ls : List Lexeme) (t : Tree) : Prop :=
  ∀ n, 8 * ls.length < n → Segment .add (sequence isFactor (unary n) n)
    (fun rest ↦ Ends rest ∧ Avoids isFactor rest) ls t

/-- Read as a whole expression. -/
def ReadsExpression (ls : List Lexeme) (t : Tree) : Prop :=
  ∀ n rest, Closes rest → 8 * ls.length + 1 < n → expression n (ls ++ rest) = some (t, rest)

theorem accesses_of_ends {rest : List Lexeme} (h : Ends rest) {n : Nat} (hn : 0 < n) (t : Tree) :
    accesses n t rest = some (t, rest) := by
  obtain ⟨n, rfl⟩ := Nat.exists_eq_succ_of_ne_zero (Nat.ne_of_gt hn)
  cases rest with
  | nil => rfl
  | cons l ls => cases l <;> first | rfl | exact h.elim

theorem Ends.head?_ne {rest : List Lexeme} (h : Ends rest) :
    rest.head? ≠ some .openParen := by
  cases rest with
  | nil => simp
  | cons l ls =>
      rintro heq
      obtain rfl : l = .openParen := by simpa using heq
      exact h

theorem ReadsAccess.unary {ls : List Lexeme} {t : Tree} (h : ReadsAccess ls t) :
    ReadsUnary ls t := by
  intro n rest hrest hn
  obtain ⟨m, hm, hread⟩ := h n rest hrest.head?_ne hn
  rw [hread, accesses_of_ends hrest (by omega)]

theorem ReadsUnary.product {ls : List Lexeme} {t : Tree} (h : ReadsUnary ls t)
    (ht : t.isBy isFactor = false) : ReadsProduct ls t := by
  intro n hn
  exact segment_of_item rfl (fun rest hrest ↦ h n rest hrest hn) ht

theorem ReadsUnary.arithmetic {ls : List Lexeme} {t : Tree} (h : ReadsUnary ls t) :
    ReadsArithmetic ls :=
  fun n rest hrest hother hn ↦ ⟨t, rest, h n rest hrest hn, hother⟩

theorem ReadsArithmetic.append {ls : List Lexeme} (h : ReadsArithmetic ls) {op : BinaryOp}
    (hop : isOther op = false) (ls' : List Lexeme) :
    ReadsArithmetic (ls ++ .operator op :: ls') := by
  intro n rest _ _ hn
  rw [List.append_assoc, List.cons_append]
  rw [List.length_append] at hn
  exact h n _ trivial hop (by omega)

theorem ReadsProduct.term {ls : List Lexeme} {t : Tree} (h : ReadsProduct ls t) {n : Nat}
    (hn : 8 * ls.length < n) {rest : List Lexeme} (hends : Ends rest)
    (hrest : Avoids isFactor rest) :
    sequence isFactor (Reading.unary n) n (ls ++ rest) = some (t, rest) := by
  obtain ⟨m, hm, hread⟩ := (h n hn).starts n rest hends (by omega)
  exact hread.trans (chain_of_avoids hrest (by omega) t)

theorem ReadsProduct.sum {ls : List Lexeme} {t : Tree} (h : ReadsProduct ls t)
    (ht : t.isBy isTerm = false) : ReadsSum ls t := by
  intro n hn
  exact segment_of_item rfl (fun rest hrest ↦ h.term hn hrest.1 hrest.2) ht

theorem ReadsSum.expression {ls : List Lexeme} {t : Tree} (h : ReadsSum ls t)
    (harith : ReadsArithmetic ls) : ReadsExpression ls t := by
  intro n rest hrest hn
  obtain ⟨n, rfl⟩ := Nat.exists_eq_succ_of_ne_zero (show n ≠ 0 by omega)
  obtain ⟨u, rest', hfirst, hother⟩ := harith n rest hrest.ends (hrest.avoids _) (by omega)
  have hcomparison : comparison (Reading.unary n) (ls ++ rest) = none := by
    unfold comparison
    rw [hfirst]
    cases rest' with
    | nil => rfl
    | cons l ls =>
        cases l with
        | operator op =>
            have hop : isOther op = false := hother
            simp [hop]
        | _ => rfl
  obtain ⟨m, hm, hread⟩ :=
    (h n (by omega)).starts n rest ⟨hrest.ends, hrest.avoids _⟩ (by omega)
  simp only [Reading.expression, hcomparison, Option.none_or]
  exact hread.trans (chain_of_avoids (hrest.avoids _) (by omega) t)

/-! ### Parentheses -/

theorem ReadsExpression.paren {ls : List Lexeme} {t : Tree} (h : ReadsExpression ls t) :
    ReadsAccess (.openParen :: (ls ++ [.closeParen])) t := by
  intro n rest _ hn
  simp only [List.length_cons, List.length_append, List.length_nil] at hn ⊢
  obtain ⟨n, rfl⟩ := Nat.exists_eq_succ_of_ne_zero (show n ≠ 0 by omega)
  obtain ⟨n, rfl⟩ := Nat.exists_eq_succ_of_ne_zero (show n ≠ 0 by omega)
  refine ⟨n + 1, by omega, ?_⟩
  have hread := h n (.closeParen :: rest) trivial (by omega)
  simp only [List.cons_append, List.append_assoc, List.nil_append, Reading.unary, primary, hread]

def meaning (e : Code.Expr) : Tree :=
  (treeOf e).regroup

/-- The lexemes of an expression are read at every level that its grade allows. -/
structure Reads (e : Code.Expr) : Prop where
  access : e.grade = .atomic → ReadsAccess (written e) (meaning e)
  unary : e.grade = .atomic ∨ e.grade = .unary → ReadsUnary (written e) (meaning e)
  product : e.grade ≠ .additive → e.grade ≠ .other → ReadsProduct (written e) (meaning e)
  arithmetic : e.grade ≠ .other → ReadsArithmetic (written e)
  sum : e.grade ≠ .other → ReadsSum (written e) (meaning e)
  expression : ReadsExpression (written e) (meaning e)

section Operands

variable {e : Code.Expr} {parens : Bool}

theorem Reads.operand_access (h : Reads e) (hp : parens = false → e.grade = .atomic) :
    ReadsAccess (operand parens e) (meaning e) := by
  cases parens with
  | false => exact h.access (hp rfl)
  | true =>
      rw [operand_true]
      exact h.expression.paren

theorem Reads.operand_unary (h : Reads e)
    (hp : parens = false → e.grade = .atomic ∨ e.grade = .unary) :
    ReadsUnary (operand parens e) (meaning e) := by
  cases parens with
  | false => exact h.unary (hp rfl)
  | true =>
      rw [operand_true]
      exact h.expression.paren.unary

theorem Reads.operand_product (h : Reads e)
    (hp : parens = false → e.grade ≠ .additive ∧ e.grade ≠ .other)
    (ht : parens = true → (meaning e).isBy isFactor = false) :
    ReadsProduct (operand parens e) (meaning e) := by
  cases parens with
  | false => exact h.product (hp rfl).1 (hp rfl).2
  | true =>
      rw [operand_true]
      exact h.expression.paren.unary.product (ht rfl)

theorem Reads.operand_arithmetic (h : Reads e) (hp : parens = false → e.grade ≠ .other) :
    ReadsArithmetic (operand parens e) := by
  cases parens with
  | false => exact h.arithmetic (hp rfl)
  | true =>
      rw [operand_true]
      exact h.expression.paren.unary.arithmetic

theorem Reads.operand_sum (h : Reads e) (hp : parens = false → e.grade ≠ .other)
    (hfactor : parens = true → (meaning e).isBy isFactor = false)
    (hterm : parens = true → (meaning e).isBy isTerm = false) :
    ReadsSum (operand parens e) (meaning e) := by
  cases parens with
  | false => exact h.sum (hp rfl)
  | true =>
      rw [operand_true]
      exact (h.expression.paren.unary.product (hfactor rfl)).sum (hterm rfl)

end Operands

/-! ### Grades -/

theorem isFactor_eq (op : BinaryOp) : isFactor op = (gradeOf op == .multiplicative) := by
  cases op <;> rfl

theorem isTerm_eq (op : BinaryOp) : isTerm op = (gradeOf op == .additive) := by
  cases op <;> rfl

theorem isOther_eq (op : BinaryOp) : isOther op = (gradeOf op == .other) := by
  cases op <;> rfl

theorem gradeOf_eq_of_regroups {op o : BinaryOp} (h : regroups op o = true) :
    gradeOf o = gradeOf op := by
  cases op <;> cases o <;> first | rfl | simp [regroups, isFactor, isTerm] at h

theorem meaning_binary (op : BinaryOp) (a b : Code.Expr) :
    meaning (.binary op a b) = Tree.graft op (meaning a) (meaning b) := by
  simp only [meaning, treeOf, Tree.regroup]

/-- Regrouping keeps grades: only a product is read as one, and only a sum. -/
theorem isBy_meaning {joins : BinaryOp → Bool} {g : Grade}
    (hjoins : ∀ op, joins op = (gradeOf op == g)) (hatomic : g ≠ .atomic) (hunary : g ≠ .unary)
    {e : Code.Expr} (h : Readable e) : (meaning e).isBy joins = (e.grade == g) := by
  have hatomic' : (Grade.atomic == g) = false := by simpa using hatomic.symm
  have hunary' : (Grade.unary == g) = false := by simpa using hunary.symm
  cases e with
  | unary op a => simp [meaning, treeOf, Tree.regroup, Tree.isBy, Code.Expr.grade, hunary']
  | binary op a b =>
      rw [meaning_binary, Tree.isBy_graft, hjoins]
      · rfl
      · intro o ho
        rw [hjoins, hjoins, gradeOf_eq_of_regroups ho]
  | suffixed a suffix =>
      cases a with
      | word s => simp [meaning, treeOf, Tree.regroup, Tree.isBy, Code.Expr.grade, hatomic']
      | _ => exact h.elim
  | _ => simp [meaning, treeOf, Tree.regroup, Tree.isBy, Code.Expr.grade, hatomic']

theorem isBy_isFactor_meaning {e : Code.Expr} (h : Readable e) :
    (meaning e).isBy isFactor = (e.grade == .multiplicative) :=
  isBy_meaning isFactor_eq (by decide) (by decide) h

theorem isBy_isTerm_meaning {e : Code.Expr} (h : Readable e) :
    (meaning e).isBy isTerm = (e.grade == .additive) :=
  isBy_meaning isTerm_eq (by decide) (by decide) h

/-! ### Reading by grade -/

section Grades

variable {e : Code.Expr}

theorem reads_of_comparison (hg : e.grade = .other)
    (hexpression : ReadsExpression (written e) (meaning e)) : Reads e where
  access ha := by simp [hg] at ha
  unary ha := by simp [hg] at ha
  product _ ha := (ha hg).elim
  arithmetic ha := (ha hg).elim
  sum ha := (ha hg).elim
  expression := hexpression

theorem reads_of_sum (hg : e.grade = .additive) (hsum : ReadsSum (written e) (meaning e))
    (harith : ReadsArithmetic (written e)) : Reads e where
  access ha := by simp [hg] at ha
  unary ha := by simp [hg] at ha
  product ha := (ha hg).elim
  arithmetic _ := harith
  sum _ := hsum
  expression := hsum.expression harith

theorem reads_of_product (h : Readable e) (hg : e.grade = .multiplicative)
    (hproduct : ReadsProduct (written e) (meaning e)) (harith : ReadsArithmetic (written e)) :
    Reads e := by
  have hsum := hproduct.sum (by rw [isBy_isTerm_meaning h, hg]; rfl)
  exact
    { access := fun ha ↦ by simp [hg] at ha
      unary := fun ha ↦ by simp [hg] at ha
      product := fun _ _ ↦ hproduct
      arithmetic := fun _ ↦ harith
      sum := fun _ ↦ hsum
      expression := hsum.expression harith }

theorem reads_of_unary (h : Readable e) (hg : e.grade = .unary)
    (hunary : ReadsUnary (written e) (meaning e)) : Reads e := by
  have hproduct := hunary.product (by rw [isBy_isFactor_meaning h, hg]; rfl)
  have hsum := hproduct.sum (by rw [isBy_isTerm_meaning h, hg]; rfl)
  exact
    { access := fun ha ↦ by simp [hg] at ha
      unary := fun _ ↦ hunary
      product := fun _ _ ↦ hproduct
      arithmetic := fun _ ↦ hunary.arithmetic
      sum := fun _ ↦ hsum
      expression := hsum.expression hunary.arithmetic }

theorem reads_of_access (h : Readable e) (hg : e.grade = .atomic)
    (haccess : ReadsAccess (written e) (meaning e)) : Reads e := by
  have hproduct := haccess.unary.product (by rw [isBy_isFactor_meaning h, hg]; rfl)
  have hsum := hproduct.sum (by rw [isBy_isTerm_meaning h, hg]; rfl)
  exact
    { access := fun _ ↦ haccess
      unary := fun _ ↦ haccess.unary
      product := fun _ _ ↦ hproduct
      arithmetic := fun _ ↦ haccess.unary.arithmetic
      sum := fun _ ↦ hsum
      expression := hsum.expression haccess.unary.arithmetic }

end Grades

/-! ### Words, prefixes and accesses -/

theorem readsAccess_word (s : String) : ReadsAccess [.word s] (.word s) := by
  intro n rest hrest hn
  obtain ⟨n, rfl⟩ := Nat.exists_eq_succ_of_ne_zero (Nat.ne_zero_of_lt hn)
  have hn' : 8 < n + 1 := hn
  obtain ⟨n, rfl⟩ := Nat.exists_eq_succ_of_ne_zero (show n ≠ 0 by omega)
  refine ⟨n + 1, by simp, ?_⟩
  have hprimary : primary (n + 1) (.word s :: rest) = some (.word s, rest) := by
    cases rest with
    | nil => rfl
    | cons l ls =>
        cases l with
        | openParen => exact (hrest rfl).elim
        | _ => rfl
  simp only [List.cons_append, List.nil_append, unary, hprimary]

theorem reads_word (s : String) : Reads (.word s) := by
  refine reads_of_access (by simp [Readable]) rfl ?_
  rw [written_word]
  simpa only [meaning, treeOf, Tree.regroup] using readsAccess_word s

theorem reads_suffixed (s suffix : String) : Reads (.suffixed (.word s) suffix) := by
  refine reads_of_access (by simp [Readable]) rfl ?_
  rw [written_suffixed]
  simpa only [meaning, treeOf, Tree.regroup] using readsAccess_word (s ++ suffix)

/-- The operand of a prefix and the object of an access stand in parentheses unless atomic. -/
theorem Reads.object {a : Code.Expr} (ha : Reads a) :
    ReadsAccess (operand (a.grade != .atomic) a) (meaning a) :=
  ha.operand_access fun hp ↦ by simpa using hp

theorem reads_unary {op : UnaryOp} {a : Code.Expr} (hr : Readable (.unary op a)) (ha : Reads a) :
    Reads (.unary op a) := by
  refine reads_of_unary hr rfl ?_
  intro n rest hrest hn
  rw [written_unary] at hn ⊢
  rw [List.length_cons] at hn
  obtain ⟨n, rfl⟩ := Nat.exists_eq_succ_of_ne_zero (show n ≠ 0 by omega)
  have hread := ha.object.unary n rest hrest (by omega)
  cases op <;>
    simp [lexemeOf, unary, hread, meaning, treeOf, Tree.regroup]

theorem reads_member {a : Code.Expr} {name : String} (hr : Readable (.member a name))
    (ha : Reads a) : Reads (.member a name) := by
  refine reads_of_access hr rfl ?_
  intro n rest _ hn
  rw [written_member] at hn ⊢
  simp only [List.length_append, List.length_cons, List.length_nil] at hn ⊢
  obtain ⟨m, hm, hread⟩ := ha.object n (.dot :: .word name :: rest) (by simp) (by omega)
  obtain ⟨m, rfl⟩ := Nat.exists_eq_succ_of_ne_zero (show m ≠ 0 by omega)
  refine ⟨m, by omega, ?_⟩
  rw [List.append_assoc, List.cons_append, List.cons_append, List.nil_append, hread]
  simp only [accesses, meaning, treeOf, Tree.regroup]

theorem reads_index {a i : Code.Expr} (hr : Readable (.index a i)) (ha : Reads a)
    (hi : Reads i) : Reads (.index a i) := by
  refine reads_of_access hr rfl ?_
  intro n rest _ hn
  rw [written_index] at hn ⊢
  simp only [List.length_append, List.length_cons, List.length_nil] at hn ⊢
  obtain ⟨m, hm, hread⟩ :=
    ha.object n (.openIndex :: (written i ++ .closeIndex :: rest)) (by simp) (by omega)
  obtain ⟨m, rfl⟩ := Nat.exists_eq_succ_of_ne_zero (show m ≠ 0 by omega)
  refine ⟨m, by omega, ?_⟩
  have hposition := hi.expression m (.closeIndex :: rest) trivial (by omega)
  simp only [List.append_assoc, List.cons_append, List.nil_append, hread, accesses, hposition,
    meaning, treeOf, Tree.regroup]

/-! ### Calls -/

theorem expression_closeParen (n : Nat) (ls : List Lexeme) :
    expression n (.closeParen :: ls) = none := by
  cases n with
  | zero => rfl
  | succ n =>
      have hunary : unary n (.closeParen :: ls) = none := by
        cases n with
        | zero => rfl
        | succ n => cases n <;> rfl
      simp [expression, comparison, sequence, hunary]

theorem someArguments_written (args : List Code.Expr) (hne : args ≠ [])
    (h : ∀ a ∈ args, Reads a) {n : Nat} (hn : 8 * (writtenAll args).length + 2 < n)
    (rest : List Lexeme) :
    someArguments n (writtenAll args ++ .closeParen :: rest) = some (args.map meaning, rest) := by
  induction args generalizing n with
  | nil => exact (hne rfl).elim
  | cons a args ih =>
      obtain ⟨n, rfl⟩ := Nat.exists_eq_succ_of_ne_zero (Nat.ne_zero_of_lt hn)
      have ha : Reads a := h a (by simp)
      cases args with
      | nil =>
          have hread := ha.expression n (.closeParen :: rest) trivial (by
            simp only [writtenAll, Code.Expr.tokensSeparated] at hn
            simp only [written]
            omega)
          simp only [someArguments, writtenAll, Code.Expr.tokensSeparated] at hread ⊢
          simp only [written] at hread
          rw [hread]
          rfl
      | cons a' args =>
          rw [writtenAll_cons_cons] at hn ⊢
          simp only [List.length_append, List.length_cons] at hn
          have hread := ha.expression n
            (.comma :: (writtenAll (a' :: args) ++ .closeParen :: rest)) trivial (by omega)
          have hrest := ih (by simp) (fun b hb ↦ h b (List.mem_cons_of_mem _ hb))
            (show 8 * (writtenAll (a' :: args)).length + 2 < n by omega)
          simp only [List.append_assoc, List.cons_append, someArguments, hread, hrest,
            List.map_cons]

theorem arguments_written (args : List Code.Expr) (h : ∀ a ∈ args, Reads a) {n : Nat}
    (hn : 8 * (writtenAll args).length + 3 < n) (rest : List Lexeme) :
    arguments n (writtenAll args ++ .closeParen :: rest) = some (args.map meaning, rest) := by
  obtain ⟨n, rfl⟩ := Nat.exists_eq_succ_of_ne_zero (Nat.ne_zero_of_lt hn)
  by_cases hargs : args = []
  · subst hargs
    rfl
  · have hread := someArguments_written args hargs h (show _ < n by omega) rest
    -- the first argument is an expression, so the list does not close at once
    have hfirst : ∀ ls, writtenAll args ++ .closeParen :: rest ≠ .closeParen :: ls := by
      intro ls hls
      rw [hls] at hread
      cases n with
      | zero => simp [someArguments] at hread
      | succ n => simp [someArguments, expression_closeParen] at hread
    rw [← hread]
    generalize writtenAll args ++ .closeParen :: rest = ls at hfirst
    cases ls with
    | nil => rfl
    | cons l ls =>
        cases l with
        | closeParen => exact (hfirst ls rfl).elim
        | _ => rfl

theorem regroupAll_treesOf (es : List Code.Expr) :
    Tree.regroupAll (treesOf es) = es.map meaning := by
  induction es with
  | nil => rfl
  | cons e es ih => simp only [treesOf, Tree.regroupAll, ih, List.map_cons, meaning]

theorem reads_call {callee : String} {args : List Code.Expr}
    (hr : Readable (.call callee args)) (h : ∀ a ∈ args, Reads a) : Reads (.call callee args) := by
  refine reads_of_access hr rfl ?_
  intro n rest _ hn
  rw [written_call] at hn ⊢
  simp only [List.length_append, List.length_cons, List.length_nil] at hn ⊢
  obtain ⟨n, rfl⟩ := Nat.exists_eq_succ_of_ne_zero (show n ≠ 0 by omega)
  obtain ⟨n, rfl⟩ := Nat.exists_eq_succ_of_ne_zero (show n ≠ 0 by omega)
  refine ⟨n + 1, by omega, ?_⟩
  have hread := arguments_written args h (show _ < n by omega) rest
  simp only [List.append_assoc, List.cons_append, List.nil_append, unary, primary, hread,
    meaning, treeOf, Tree.regroup, regroupAll_treesOf]

/-! ### Operators -/

theorem needsParens_factor_left {op : BinaryOp} (h : gradeOf op = .multiplicative) (g : Grade) :
    needsParens op .left g = (g == .additive || g == .other) := by
  cases op <;> cases g <;> first | rfl | simp [gradeOf] at h

theorem needsParens_term_left {op : BinaryOp} (h : gradeOf op = .additive) (g : Grade) :
    needsParens op .left g = (g == .other) := by
  cases op <;> cases g <;> first | rfl | simp [gradeOf] at h

theorem needsParens_other {op : BinaryOp} (h : gradeOf op = .other) (side : Side) (g : Grade) :
    needsParens op side g = (g != .atomic && g != .unary) := by
  cases op <;> cases g <;> cases side <;> first | rfl | simp [gradeOf] at h

theorem needsParens_mul_right (g : Grade) :
    needsParens .mul .right g = (g == .additive || g == .other) := by
  cases g <;> rfl

theorem needsParens_quotient_right {op : BinaryOp} (h : op = .div ∨ op = .rem) (g : Grade) :
    needsParens op .right g = (g != .atomic) := by
  rcases h with rfl | rfl <;> cases g <;> rfl

theorem needsParens_add_right (g : Grade) : needsParens .add .right g = (g == .other) := by
  cases g <;> rfl

theorem needsParens_sub_right (g : Grade) :
    needsParens .sub .right g = (g == .additive || g == .other) := by
  cases g <;> rfl

section Operators

variable {op : BinaryOp} {a b : Code.Expr}

/-- An operand in parentheses only if it is a sum or a comparison is a part of a product. -/
theorem Reads.factor (h : Reads a) (hr : Readable a) :
    ReadsProduct (operand (a.grade == .additive || a.grade == .other) a) (meaning a) ∧
      ReadsArithmetic (operand (a.grade == .additive || a.grade == .other) a) := by
  have hbare : (a.grade == .additive || a.grade == .other) = false →
      a.grade ≠ .additive ∧ a.grade ≠ .other := by simp
  refine ⟨h.operand_product hbare ?_, h.operand_arithmetic fun hp ↦ (hbare hp).2⟩
  intro hp
  rw [isBy_isFactor_meaning hr]
  cases hg : a.grade <;> simp_all

/-- An operand in parentheses only if it is a comparison is a part of a sum. -/
theorem Reads.addend (h : Reads a) (hr : Readable a) :
    ReadsSum (operand (a.grade == .other) a) (meaning a) ∧
      ReadsArithmetic (operand (a.grade == .other) a) := by
  have hother : (a.grade == .other) = false → a.grade ≠ .other := by simp
  refine ⟨h.operand_sum hother ?_ ?_, h.operand_arithmetic hother⟩
  · intro hp
    rw [isBy_isFactor_meaning hr, eq_of_beq hp]
    rfl
  · intro hp
    rw [isBy_isTerm_meaning hr, eq_of_beq hp]
    rfl

/-- An operand in parentheses unless it is atomic or prefixed stands on either side of any other
operator. -/
theorem Reads.compared (h : Reads a) :
    ReadsUnary (operand (a.grade != .atomic && a.grade != .unary) a) (meaning a) := by
  apply h.operand_unary
  intro hp
  cases hg : a.grade <;> simp_all

theorem reads_multiplicative (hg : gradeOf op = .multiplicative)
    (hr : Readable (.binary op a b)) (ha : Reads a) (hb : Reads b) : Reads (.binary op a b) := by
  obtain ⟨hra, hrb⟩ : Readable a ∧ Readable b := by simpa only [Readable] using hr
  obtain ⟨hleft, harith⟩ := ha.factor hra
  have hother : isOther op = false := by rw [isOther_eq, hg]; rfl
  refine reads_of_product hr hg ?_ ?_
  · intro n hn
    rw [written_binary, needsParens_factor_left hg] at hn ⊢
    simp only [List.length_append, List.length_cons] at hn
    rw [meaning_binary]
    by_cases hmul : op = .mul
    · subst hmul
      rw [needsParens_mul_right] at hn ⊢
      exact (hleft n (by omega)).append ((hb.factor hrb).1 n (by omega)) rfl fun _ ↦ trivial
    · have hquotient : op = .div ∨ op = .rem := by cases op <;> simp_all [gradeOf]
      have hregroups : ∀ o, regroups op o = false := by
        rcases hquotient with rfl | rfl <;> intro o <;> rfl
      have hfactor : regroups .mul op = true := by rcases hquotient with rfl | rfl <;> rfl
      rw [needsParens_quotient_right hquotient] at hn ⊢
      rw [Tree.graft_of_regroups_eq_false hregroups]
      exact (hleft n (by omega)).operator hfactor (fun _ ↦ trivial)
        fun rest hrest ↦ hb.object.unary n rest hrest (by omega)
  · rw [written_binary, needsParens_factor_left hg]
    exact harith.append hother _

theorem reads_additive (hg : gradeOf op = .additive) (hr : Readable (.binary op a b))
    (ha : Reads a) (hb : Reads b) : Reads (.binary op a b) := by
  obtain ⟨hra, hrb⟩ : Readable a ∧ Readable b := by simpa only [Readable] using hr
  obtain ⟨hleft, harith⟩ := ha.addend hra
  have hother : isOther op = false := by rw [isOther_eq, hg]; rfl
  have hfactor : isFactor op = false := by rw [isFactor_eq, hg]; rfl
  refine reads_of_sum hg ?_ ?_
  · intro n hn
    rw [written_binary, needsParens_term_left hg] at hn ⊢
    simp only [List.length_append, List.length_cons] at hn
    rw [meaning_binary]
    by_cases hadd : op = .add
    · subst hadd
      rw [needsParens_add_right] at hn ⊢
      exact (hleft n (by omega)).append ((hb.addend hrb).1 n (by omega)) rfl
        fun _ ↦ ⟨trivial, rfl⟩
    · obtain rfl : op = .sub := by cases op <;> simp_all [gradeOf]
      rw [needsParens_sub_right] at hn ⊢
      rw [Tree.graft_of_regroups_eq_false fun _ ↦ rfl]
      exact (hleft n (by omega)).operator rfl (fun _ ↦ ⟨trivial, rfl⟩)
        fun rest hrest ↦ (hb.factor hrb).1.term (by omega) hrest.1 hrest.2
  · rw [written_binary, needsParens_term_left hg]
    exact harith.append hother _

theorem reads_other (hg : gradeOf op = .other) (ha : Reads a) (hb : Reads b) :
    Reads (.binary op a b) := by
  have hother : isOther op = true := by rw [isOther_eq, hg]; rfl
  have hregroups : ∀ o, regroups op o = false := by
    intro o
    cases op <;> first | rfl | simp [gradeOf] at hg
  refine reads_of_comparison hg ?_
  intro n rest hrest hn
  rw [written_binary, needsParens_other hg, needsParens_other hg] at hn ⊢
  simp only [List.length_append, List.length_cons] at hn
  obtain ⟨n, rfl⟩ := Nat.exists_eq_succ_of_ne_zero (show n ≠ 0 by omega)
  have hleft := ha.compared n
    (.operator op :: (operand (b.grade != .atomic && b.grade != .unary) b ++ rest)) trivial
    (by omega)
  have hright := hb.compared n rest hrest.ends (by omega)
  rw [meaning_binary, Tree.graft_of_regroups_eq_false hregroups]
  simp only [List.append_assoc, List.cons_append, expression, comparison, hleft, hright, hother,
    if_true, Option.some_or]

theorem reads_binary (hr : Readable (.binary op a b)) (ha : Reads a) (hb : Reads b) :
    Reads (.binary op a b) := by
  cases hg : gradeOf op with
  | multiplicative => exact reads_multiplicative hg hr ha hb
  | additive => exact reads_additive hg hr ha hb
  | other => exact reads_other hg ha hb
  | _ => cases op <;> simp [gradeOf] at hg

end Operators

/-! ### All expressions -/

mutual

theorem reads : ∀ e : Code.Expr, Readable e → Reads e
  | .word s, _ => reads_word s
  | .unary _ a, h => reads_unary h (reads a (by simpa only [Readable] using h))
  | .binary _ a b, h =>
    have hab : Readable a ∧ Readable b := by simpa only [Readable] using h
    reads_binary h (reads a hab.1) (reads b hab.2)
  | .call _ args, h => reads_call h (readsAll args (by simpa only [Readable] using h))
  | .member a _, h => reads_member h (reads a (by simpa only [Readable] using h))
  | .index a i, h =>
    have hai : Readable a ∧ Readable i := by simpa only [Readable] using h
    reads_index h (reads a hai.1) (reads i hai.2)
  | .suffixed (.word s) suffix, _ => reads_suffixed s suffix
  | .suffixed (.unary ..) _, h => h.elim
  | .suffixed (.binary ..) _, h => h.elim
  | .suffixed (.call ..) _, h => h.elim
  | .suffixed (.member ..) _, h => h.elim
  | .suffixed (.index ..) _, h => h.elim
  | .suffixed (.suffixed ..) _, h => h.elim

theorem readsAll : ∀ es : List Code.Expr, ReadableAll es → ∀ e ∈ es, Reads e
  | [], _ => by simp
  | e :: es, h => by
    intro e' he'
    have hes : Readable e ∧ ReadableAll es := by simpa only [ReadableAll] using h
    rcases List.mem_cons.mp he' with heq | he'
    · exact heq ▸ reads e hes.1
    · exact readsAll es hes.2 e' he'

end

/-- Reading what is written gives the tree of the expression, regrouped where parentheses are left
out. -/
theorem parse_written {e : Code.Expr} (h : Readable e) : parse (written e) = some (meaning e) := by
  have hread := (reads e h).expression (8 * (written e).length + 8) [] trivial (by omega)
  rw [List.append_nil] at hread
  simp only [parse, hread]

end Shading.Reading
