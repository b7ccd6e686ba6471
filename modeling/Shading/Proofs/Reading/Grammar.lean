import Shading.Code.Expr

/-!
# Reading expressions

The grammar that both target languages share, as a parser of lexemes.  Accesses bind tighter than
prefix operators; then come products, quotients and remainders, then sums and differences, both
grouped from the left; every other operator stands between two operands that are at most prefixed.

    expression ::= unary other unary | sum
    sum        ::= product (("+" | "-") product)*
    product    ::= unary (("*" | "/" | "%") unary)*
    unary      ::= ("-" | "!") unary | primary access*
    access     ::= "." word | "[" expression "]"
    primary    ::= word | word "(" arguments ")" | "(" expression ")"
-/

namespace Shading.Reading

/-! ### Lexemes -/

/-- What a text is made of, blanks aside.  A minus sign is the same lexeme in front of an operand
and between two operands. -/
inductive Lexeme where
  /-- A name, a type or the magnitude of a number. -/
  | word (text : String)
  | bang
  | operator (op : BinaryOp)
  | openParen
  | closeParen
  | comma
  | dot
  | openIndex
  | closeIndex
  deriving DecidableEq, Repr

def lexemeOf : Code.Token → Lexeme
  | .word s => .word s
  | .unary .not => .bang
  | .unary .neg => .operator .sub
  | .binary op => .operator op
  | .openParen => .openParen
  | .closeParen => .closeParen
  | .comma => .comma
  | .dot => .dot
  | .openIndex => .openIndex
  | .closeIndex => .closeIndex

/-- The lexemes of written tokens.  Words with nothing between them are one word. -/
def lexemes : List Code.Token → List Lexeme
  | [] => []
  | .word s :: ts =>
    match lexemes ts with
    | .word s' :: ls => .word (s ++ s') :: ls
    | ls => .word s :: ls
  | t :: ts => lexemeOf t :: lexemes ts

/-! ### Trees -/

/-- An expression as a reader of the text understands it. -/
inductive Tree where
  | word (text : String)
  | unary (op : UnaryOp) (operand : Tree)
  | binary (op : BinaryOp) (left right : Tree)
  | call (callee : String) (args : List Tree)
  | member (object : Tree) (name : String)
  | index (object position : Tree)

/-- Operators between the factors of a product. -/
def isFactor : BinaryOp → Bool
  | .mul => true
  | .div => true
  | .rem => true
  | _ => false

/-- Operators between the terms of a sum. -/
def isTerm : BinaryOp → Bool
  | .add => true
  | .sub => true
  | _ => false

/-- Operators whose operands have no operators of their own outside parentheses. -/
def isOther (op : BinaryOp) : Bool :=
  !isFactor op && !isTerm op

/-! ### The parser -/

/-- What is read, and the lexemes after it. -/
abbrev Outcome (α : Type) := Option (α × List Lexeme)

/-- Further operands of a chain of operators, grouped from the left. -/
def chain (joins : BinaryOp → Bool) (item : List Lexeme → Outcome Tree) :
    Nat → Tree → List Lexeme → Outcome Tree
  | 0, _, _ => none
  | n + 1, t, .operator op :: ls =>
    if joins op then
      match item ls with
      | some (u, ls) => chain joins item n (.binary op t u) ls
      | none => none
    else some (t, .operator op :: ls)
  | _ + 1, t, ls => some (t, ls)

/-- `item (operator item)*` -/
def sequence (joins : BinaryOp → Bool) (item : List Lexeme → Outcome Tree) (fuel : Nat)
    (ls : List Lexeme) : Outcome Tree :=
  match item ls with
  | some (t, ls) => chain joins item fuel t ls
  | none => none

/-- `item other item` -/
def comparison (item : List Lexeme → Outcome Tree) (ls : List Lexeme) : Outcome Tree :=
  match item ls with
  | some (t, .operator op :: ls) =>
    if isOther op then
      match item ls with
      | some (u, ls) => some (.binary op t u, ls)
      | none => none
    else none
  | _ => none

mutual

def primary : Nat → List Lexeme → Outcome Tree
  | 0, _ => none
  | n + 1, .word s :: .openParen :: ls =>
    match arguments n ls with
    | some (args, ls) => some (.call s args, ls)
    | none => none
  | _ + 1, .word s :: ls => some (.word s, ls)
  | n + 1, .openParen :: ls =>
    match expression n ls with
    | some (t, .closeParen :: ls) => some (t, ls)
    | _ => none
  | _ + 1, _ => none

def accesses : Nat → Tree → List Lexeme → Outcome Tree
  | 0, _, _ => none
  | n + 1, t, .dot :: .word s :: ls => accesses n (.member t s) ls
  | n + 1, t, .openIndex :: ls =>
    match expression n ls with
    | some (i, .closeIndex :: ls) => accesses n (.index t i) ls
    | _ => none
  | _ + 1, t, ls => some (t, ls)

def unary : Nat → List Lexeme → Outcome Tree
  | 0, _ => none
  | n + 1, .operator .sub :: ls => (unary n ls).map fun (t, ls) ↦ (.unary .neg t, ls)
  | n + 1, .bang :: ls => (unary n ls).map fun (t, ls) ↦ (.unary .not t, ls)
  | n + 1, ls =>
    match primary n ls with
    | some (t, ls) => accesses n t ls
    | none => none

def expression : Nat → List Lexeme → Outcome Tree
  | 0, _ => none
  | n + 1, ls =>
    (comparison (unary n) ls).or (sequence isTerm (sequence isFactor (unary n) n) n ls)

/-- Arguments up to the closing parenthesis. -/
def arguments : Nat → List Lexeme → Outcome (List Tree)
  | 0, _ => none
  | _ + 1, .closeParen :: ls => some ([], ls)
  | n + 1, ls => someArguments n ls

def someArguments : Nat → List Lexeme → Outcome (List Tree)
  | 0, _ => none
  | n + 1, ls =>
    match expression n ls with
    | some (t, .comma :: ls) =>
      match someArguments n ls with
      | some (args, ls) => some (t :: args, ls)
      | none => none
    | some (t, .closeParen :: ls) => some ([t], ls)
    | _ => none

end

/-- The tree of a whole text.  Every level of the grammar takes a step of its own, and there are
fewer than eight levels above each lexeme. -/
def parse (ls : List Lexeme) : Option Tree :=
  match expression (8 * ls.length + 8) ls with
  | some (t, []) => some t
  | _ => none

end Shading.Reading
