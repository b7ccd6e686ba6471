import Shading.Proofs.Code.Leaving

/-!
# What code mentions

The words in the text of an expression, and what a word stands for: a handle, a helper, or something
of the language's own such as a type, a number or a field.  All expressions of a function are those
of its recorded body, carried over one by one, but for what the language writes to leave it.
-/

namespace Shading

namespace Code

/-! ### Words -/

def Token.word? : Token → Option String
  | .word text => some text
  | _ => none

/-- The words of an expression in the order of its text. -/
def Expr.words (e : Expr) : List String :=
  e.tokens.filterMap Token.word?

namespace Expr

theorem filterMap_wrap (parens : Bool) (tokens : List Token) :
    (wrap parens tokens).filterMap Token.word? = tokens.filterMap Token.word? := by
  cases parens <;> simp [wrap, List.filterMap_cons, Token.word?]

@[simp] theorem words_word (text : String) : (word text).words = [text] := by
  simp [words, tokens, Token.word?]

@[simp] theorem words_unary (op : UnaryOp) (a : Expr) : (unary op a).words = a.words := by
  simp [words, tokens, filterMap_wrap, List.filterMap_cons, Token.word?]

@[simp] theorem words_binary (op : BinaryOp) (a b : Expr) :
    (binary op a b).words = a.words ++ b.words := by
  simp [words, tokens, filterMap_wrap, List.filterMap_cons, Token.word?]

theorem filterMap_tokensSeparated (args : List Expr) :
    (tokensSeparated args).filterMap Token.word? = args.flatMap words := by
  induction args with
  | nil => simp [tokensSeparated]
  | cons a args ih =>
      cases args with
      | nil => simp [tokensSeparated, words]
      | cons b args =>
          rw [tokensSeparated, List.filterMap_append, List.filterMap_cons_none rfl, ih,
            List.flatMap_cons]
          · rfl
          · simp

@[simp] theorem words_call (callee : String) (args : List Expr) :
    (call callee args).words = callee :: args.flatMap words := by
  simp [words, tokens, List.filterMap_cons, Token.word?, filterMap_tokensSeparated]

@[simp] theorem words_member (a : Expr) (name : String) :
    (member a name).words = a.words ++ [name] := by
  simp [words, tokens, filterMap_wrap, List.filterMap_cons, Token.word?]

@[simp] theorem words_index (a i : Expr) : (index a i).words = a.words ++ i.words := by
  simp [words, tokens, filterMap_wrap, List.filterMap_cons, Token.word?]

@[simp] theorem words_suffixed (a : Expr) (suffix : String) :
    (suffixed a suffix).words = a.words ++ [suffix] := by
  simp [words, tokens, Token.word?]

end Expr

/-! ### Mentions -/

/-- What a part of the text of an expression stands for. -/
inductive Mention where
  | handle (h : Handle)
  | helper (name : String)
  /-- Numbers, types, functions and fields. -/
  | own (words : List String)
  deriving DecidableEq, Repr

namespace Mention

/-- The words of a mention, where `spell` says how handles are written. -/
def words (spell : Handle → List String) : Mention → List String
  | .handle h => spell h
  | .helper name => [name]
  | .own words => words

/-- What the analysis makes of a mention. -/
def event? : Mention → Option Usage.Event
  | .handle h => some (.read h)
  | .helper name => some (.call name)
  | .own _ => none

end Mention

def spelled (spell : Handle → List String) (ms : List Mention) : List String :=
  ms.flatMap (Mention.words spell)

section

variable (spell : Handle → List String)

@[simp] theorem spelled_nil : spelled spell [] = [] := rfl

@[simp] theorem spelled_handle (h : Handle) (ms : List Mention) :
    spelled spell (.handle h :: ms) = spell h ++ spelled spell ms := rfl

@[simp] theorem spelled_helper (name : String) (ms : List Mention) :
    spelled spell (.helper name :: ms) = name :: spelled spell ms := rfl

@[simp] theorem spelled_own (words : List String) (ms : List Mention) :
    spelled spell (.own words :: ms) = words ++ spelled spell ms := rfl

@[simp] theorem spelled_append (ms ms' : List Mention) :
    spelled spell (ms ++ ms') = spelled spell ms ++ spelled spell ms' :=
  List.flatMap_append

end

/-- What a language says in its own words, and how it writes calls.  A call mentions its callee and
what its arguments do. -/
structure Vocabulary where
  literal : Literal → List String
  type : Ty → String
  call : Callee → List (List Mention) → List Mention
  mem_call : ∀ {callee : Callee} {args : List (List Mention)} {a : Mention},
    a ∈ call callee args → (∃ words, a = .own words) ∨
      (∃ name, callee = .helper name ∧ a = .helper name) ∨ a ∈ args.flatten

namespace Vocabulary

variable (w : Vocabulary)

mutual

/-- What the text of an expression mentions, in order. -/
def mentions : Shading.Expr → List Mention
  | .lit l => [.own (w.literal l)]
  | .array t items => .own [w.type t] :: (mentionsEach items).flatten
  | .var h => [.handle h]
  | .unary _ a => mentions a
  | .binary _ a b => mentions a ++ mentions b
  | .call callee args => w.call callee (mentionsEach args)
  | .swizzle a channels => mentions a ++ [.own [channels.text]]
  | .field a name => mentions a ++ [.own [name]]
  | .index a i => mentions a ++ mentions i

def mentionsEach : List Shading.Expr → List (List Mention)
  | [] => []
  | e :: es => mentions e :: mentionsEach es

end

mutual

/-- A mention is an event of the analysis. -/
theorem event_of_mentions : ∀ (e : Shading.Expr) {a : Mention} {ev : Usage.Event},
    a ∈ w.mentions e → ev ∈ a.event? → ev ∈ Usage.Event.ofExpr e
  | .lit l, a, ev, ha, hev => by
    cases List.mem_singleton.mp ha
    cases hev
  | .array t items, a, ev, ha, hev => by
    rcases List.mem_cons.mp ha with rfl | ha
    · cases hev
    · exact event_of_mentionsEach items ha hev
  | .var h, a, ev, ha, hev => by
    cases List.mem_singleton.mp ha
    cases hev
    exact List.mem_singleton_self _
  | .unary op a, b, ev, hb, hev => event_of_mentions a hb hev
  | .binary op a b, m, ev, hm, hev => by
    rcases List.mem_append.mp hm with hm | hm
    · exact List.mem_append_left _ (event_of_mentions a hm hev)
    · exact List.mem_append_right _ (event_of_mentions b hm hev)
  | .call callee args, a, ev, ha, hev => by
    rcases w.mem_call ha with ⟨words, rfl⟩ | ⟨name, rfl, rfl⟩ | hargs
    · cases hev
    · cases hev
      exact List.mem_append_right _ (List.mem_singleton_self _)
    · have hargs := event_of_mentionsEach args hargs hev
      cases callee with
      | helper name => exact List.mem_append_left _ hargs
      | _ => exact hargs
  | .swizzle a channels, b, ev, hb, hev => by
    rcases List.mem_append.mp hb with hb | hb
    · exact event_of_mentions a hb hev
    · cases List.mem_singleton.mp hb
      cases hev
  | .field a name, b, ev, hb, hev => by
    rcases List.mem_append.mp hb with hb | hb
    · exact event_of_mentions a hb hev
    · cases List.mem_singleton.mp hb
      cases hev
  | .index a i, b, ev, hb, hev => by
    rcases List.mem_append.mp hb with hb | hb
    · exact List.mem_append_left _ (event_of_mentions a hb hev)
    · exact List.mem_append_right _ (event_of_mentions i hb hev)

theorem event_of_mentionsEach : ∀ (es : List Shading.Expr) {a : Mention} {ev : Usage.Event},
    a ∈ (w.mentionsEach es).flatten → ev ∈ a.event? → ev ∈ Usage.Event.ofExprs es
  | [], a, ev, ha, hev => by cases ha
  | e :: es, a, ev, ha, hev => by
    rcases List.mem_append.mp ha with ha | ha
    · exact List.mem_append_left _ (event_of_mentions e ha hev)
    · exact List.mem_append_right _ (event_of_mentionsEach es ha hev)

end

theorem mentionsEach_eq_map (es : List Shading.Expr) : w.mentionsEach es = es.map w.mentions := by
  induction es with
  | nil => rfl
  | cons e es ih => rw [mentionsEach, ih, List.map_cons]

theorem mem_mentionsEach {es : List Shading.Expr} {a : Mention} :
    a ∈ (w.mentionsEach es).flatten ↔ ∃ e ∈ es, a ∈ w.mentions e := by
  simp [mentionsEach_eq_map]

end Vocabulary

/-! ### Expressions of statements -/

mutual

/-- All expressions in a statement. -/
def Statement.exprs : Statement → List Expr
  | .declare _ _ init => init.toList
  | .assign target _ value => [target, value]
  | .leave value => value.toList
  | .branch condition body rest => condition :: (exprsAll body ++ rest.exprs)
  | .forLoop _ _ init condition next body => init :: condition :: next :: exprsAll body
  | .whileLoop condition body => condition :: exprsAll body
  | _ => []

def exprsAll : List Statement → List Expr
  | [] => []
  | s :: ss => s.exprs ++ exprsAll ss

def Otherwise.exprs : Otherwise → List Expr
  | .nothing => []
  | .always body => exprsAll body
  | .test condition body rest => condition :: (exprsAll body ++ rest.exprs)

end

theorem exprsAll_append (ss ss' : List Statement) :
    exprsAll (ss ++ ss') = exprsAll ss ++ exprsAll ss' := by
  induction ss with
  | nil => rfl
  | cons s ss ih => rw [List.cons_append, exprsAll, exprsAll, ih, List.append_assoc]

end Code

mutual

/-- All expressions in a recorded statement. -/
def Statement.exprs : Statement → List Expr
  | .declare _ _ init => init.toList
  | .assign target _ value => [target, value]
  | .leave value => value.toList
  | .branch condition body rest => condition :: (Block.exprs body ++ rest.exprs)
  | .forLoop _ _ init condition next body => init :: condition :: next :: Block.exprs body
  | .whileLoop condition body => condition :: Block.exprs body
  | _ => []

def Block.exprs : List Statement → List Expr
  | [] => []
  | s :: ss => s.exprs ++ Block.exprs ss

def Otherwise.exprs : Otherwise → List Expr
  | .nothing => []
  | .always body => Block.exprs body
  | .test condition body rest => condition :: (Block.exprs body ++ rest.exprs)

end

/-- All expressions in a helper: those of its body, and its result. -/
def Helper.exprs (h : Helper) : List Expr :=
  Block.exprs h.body ++ (h.result.map Term.expr).toList

namespace Code.Target

/-- An expression of code is one of a body, or is written to leave. -/
def Origin (t : Target) (es : List Shading.Expr) (returns : List Shading.Statement)
    (own : Bool → Expr → Prop) (x : Expr) : Prop :=
  (∃ e ∈ es, t.expr e = .ok x) ∨ ∃ v, .leave v ∈ returns ∧ own v.isSome x

theorem Origin.mono {t : Target} {es es' : List Shading.Expr} {ss ss' : List Shading.Statement}
    {own : Bool → Expr → Prop} {x : Expr} (h : t.Origin es ss own x) (hes : ∀ e ∈ es, e ∈ es')
    (hss : ∀ s ∈ ss, s ∈ ss') : t.Origin es' ss' own x := by
  rcases h with ⟨e, he, hx⟩ | ⟨v, hv, hx⟩
  · exact .inl ⟨e, hes e he, hx⟩
  · exact .inr ⟨v, hss _ hv, hx⟩

theorem mem_option {t : Target} {value : Option Shading.Expr} {v : Option Expr}
    (h : t.option value = .ok v) : v.isSome = value.isSome ∧
      ∀ x ∈ v, ∃ e ∈ value.toList, t.expr e = .ok x := by
  cases value with
  | none =>
      cases h
      simp
  | some e =>
      obtain ⟨x, hx, h⟩ := bind_eq_ok.mp h
      cases h
      simp [hx]

variable {t : Target} {own : Bool → Expr → Prop}

mutual

theorem origin_statement
    (hleave : ∀ v, ∀ x ∈ exprsAll (t.leave v), v = some x ∨ own v.isSome x) :
    ∀ (s : Shading.Statement) {code : List Statement}, t.statement s = .ok code →
      ∀ x ∈ exprsAll code, t.Origin s.exprs s.within own x
  | .declare type h init, code, hcode, x, hx => by
    obtain ⟨ty, -, hcode⟩ := bind_eq_ok.mp hcode
    obtain ⟨v, hv, hcode⟩ := bind_eq_ok.mp hcode
    cases hcode
    simp only [exprsAll, Statement.exprs, List.append_nil, Option.mem_toList] at hx
    exact .inl ((mem_option hv).2 x hx)
  | .assign target op value, code, hcode, x, hx => by
    obtain ⟨a, ha, hcode⟩ := bind_eq_ok.mp hcode
    obtain ⟨v, hv, hcode⟩ := bind_eq_ok.mp hcode
    cases hcode
    simp only [exprsAll, Statement.exprs, List.append_nil, List.mem_cons, List.not_mem_nil,
      or_false] at hx
    rcases hx with rfl | rfl
    · exact .inl ⟨target, List.mem_cons_self, ha⟩
    · exact .inl ⟨value, List.mem_cons_of_mem _ List.mem_cons_self, hv⟩
  | .leave value, code, hcode, x, hx => by
    obtain ⟨v, hv, hcode⟩ := bind_eq_ok.mp hcode
    cases hcode
    obtain ⟨hsome, hmem⟩ := mem_option hv
    rcases hleave v x hx with rfl | hown
    · exact .inl (hmem x rfl)
    · rw [hsome] at hown
      exact .inr ⟨value, List.mem_singleton_self _, hown⟩
  | .skip, code, hcode, x, hx => by
    cases hcode
    cases hx
  | .stop, code, hcode, x, hx => by
    cases hcode
    cases hx
  | .discard, code, hcode, x, hx => by
    cases hcode
    cases hx
  | .branch condition body rest, code, hcode, x, hx => by
    obtain ⟨c, hc, hcode⟩ := bind_eq_ok.mp hcode
    obtain ⟨b, hb, hcode⟩ := bind_eq_ok.mp hcode
    obtain ⟨r, hr, hcode⟩ := bind_eq_ok.mp hcode
    cases hcode
    simp only [exprsAll, Statement.exprs, List.append_nil, List.mem_cons, List.mem_append] at hx
    rcases hx with rfl | hx | hx
    · exact .inl ⟨condition, List.mem_cons_self, hc⟩
    · exact (origin_block hleave body hb x hx).mono
        (fun _ he ↦ List.mem_cons_of_mem _ (List.mem_append_left _ he))
        fun _ hs ↦ List.mem_cons_of_mem _ (List.mem_append_left _ hs)
    · exact (origin_otherwise hleave rest hr x hx).mono
        (fun _ he ↦ List.mem_cons_of_mem _ (List.mem_append_right _ he))
        fun _ hs ↦ List.mem_cons_of_mem _ (List.mem_append_right _ hs)
  | .forLoop type h init condition next body, code, hcode, x, hx => by
    obtain ⟨ty, -, hcode⟩ := bind_eq_ok.mp hcode
    obtain ⟨i, hi, hcode⟩ := bind_eq_ok.mp hcode
    obtain ⟨c, hc, hcode⟩ := bind_eq_ok.mp hcode
    obtain ⟨n, hn, hcode⟩ := bind_eq_ok.mp hcode
    obtain ⟨b, hb, hcode⟩ := bind_eq_ok.mp hcode
    cases hcode
    simp only [exprsAll, Statement.exprs, List.append_nil, List.mem_cons] at hx
    rcases hx with rfl | rfl | rfl | hx
    · exact .inl ⟨init, by simp [Shading.Statement.exprs], hi⟩
    · exact .inl ⟨condition, by simp [Shading.Statement.exprs], hc⟩
    · exact .inl ⟨next, by simp [Shading.Statement.exprs], hn⟩
    · exact (origin_block hleave body hb x hx).mono
        (fun _ he ↦ by simp [Shading.Statement.exprs, he]) fun _ ↦ List.mem_cons_of_mem _
  | .whileLoop condition body, code, hcode, x, hx => by
    obtain ⟨c, hc, hcode⟩ := bind_eq_ok.mp hcode
    obtain ⟨b, hb, hcode⟩ := bind_eq_ok.mp hcode
    cases hcode
    simp only [exprsAll, Statement.exprs, List.append_nil, List.mem_cons] at hx
    rcases hx with rfl | hx
    · exact .inl ⟨condition, List.mem_cons_self, hc⟩
    · exact (origin_block hleave body hb x hx).mono (fun _ ↦ List.mem_cons_of_mem _)
        fun _ ↦ List.mem_cons_of_mem _
  | .raw glsl wgsl, code, hcode, x, hx => by
    cases hcode
    cases hx

theorem origin_block
    (hleave : ∀ v, ∀ x ∈ exprsAll (t.leave v), v = some x ∨ own v.isSome x) :
    ∀ (ss : List Shading.Statement) {code : List Statement}, t.block ss = .ok code →
      ∀ x ∈ exprsAll code, t.Origin (Block.exprs ss) (Block.within ss) own x
  | [], code, hcode, x, hx => by
    cases hcode
    cases hx
  | s :: ss, code, hcode, x, hx => by
    obtain ⟨first, hfirst, hcode⟩ := bind_eq_ok.mp hcode
    obtain ⟨more, hmore, hcode⟩ := bind_eq_ok.mp hcode
    cases hcode
    rw [exprsAll_append] at hx
    rcases List.mem_append.mp hx with hx | hx
    · exact (origin_statement hleave s hfirst x hx).mono (fun _ ↦ List.mem_append_left _)
        fun _ ↦ List.mem_append_left _
    · exact (origin_block hleave ss hmore x hx).mono (fun _ ↦ List.mem_append_right _)
        fun _ ↦ List.mem_append_right _

theorem origin_otherwise
    (hleave : ∀ v, ∀ x ∈ exprsAll (t.leave v), v = some x ∨ own v.isSome x) :
    ∀ (rest : Shading.Otherwise) {code : Otherwise}, t.otherwise rest = .ok code →
      ∀ x ∈ code.exprs, t.Origin rest.exprs rest.within own x
  | .nothing, code, hcode, x, hx => by
    cases hcode
    cases hx
  | .always body, code, hcode, x, hx => by
    obtain ⟨b, hb, hcode⟩ := bind_eq_ok.mp hcode
    cases hcode
    exact origin_block hleave body hb x hx
  | .test condition body rest, code, hcode, x, hx => by
    obtain ⟨c, hc, hcode⟩ := bind_eq_ok.mp hcode
    obtain ⟨b, hb, hcode⟩ := bind_eq_ok.mp hcode
    obtain ⟨r, hr, hcode⟩ := bind_eq_ok.mp hcode
    cases hcode
    simp only [Otherwise.exprs, List.mem_cons, List.mem_append] at hx
    rcases hx with rfl | hx | hx
    · exact .inl ⟨condition, List.mem_cons_self, hc⟩
    · exact (origin_block hleave body hb x hx).mono
        (fun _ he ↦ List.mem_cons_of_mem _ (List.mem_append_left _ he))
        fun _ ↦ List.mem_append_left _
    · exact (origin_otherwise hleave rest hr x hx).mono
        (fun _ he ↦ List.mem_cons_of_mem _ (List.mem_append_right _ he))
        fun _ ↦ List.mem_append_right _

end

/-- The expressions of a helper's code are those of its recorded body and its result. -/
theorem origin_function (hleave : ∀ v, ∀ x ∈ exprsAll (t.leave v), v = some x) {name : String}
    {helper : Helper} {f : Function} (h : t.function name helper = .ok f) {x : Expr}
    (hx : x ∈ exprsAll f.body) : ∃ e ∈ helper.exprs, t.expr e = .ok x := by
  obtain ⟨result, -, h⟩ := bind_eq_ok.mp h
  obtain ⟨params, -, h⟩ := bind_eq_ok.mp h
  obtain ⟨code, hcode, h⟩ := bind_eq_ok.mp h
  obtain ⟨last, hlast, h⟩ := bind_eq_ok.mp h
  cases h
  rw [exprsAll_append] at hx
  rcases List.mem_append.mp hx with hx | hx
  · have horigin : t.Origin (Block.exprs helper.body) (Block.within helper.body)
        (fun _ _ ↦ False) x :=
      origin_block (fun v x hx ↦ .inl (hleave v x hx)) helper.body hcode x hx
    rcases horigin with ⟨e, he, hex⟩ | ⟨v, -, hv⟩
    · exact ⟨e, List.mem_append_left _ he, hex⟩
    · exact hv.elim
  · have hx : last = some x := by
      cases last with
      | none => cases hx
      | some e => simpa [exprsAll, Statement.exprs, eq_comm] using hx
    obtain ⟨e, he, hex⟩ := (mem_option hlast).2 x hx
    exact ⟨e, List.mem_append_right _ he, hex⟩

theorem origin_constant {i : Nat} {value : Term} {c : Constant}
    (h : t.constant i value = .ok c) :
    c.name = (Handle.constant i).text ∧ t.expr value.expr = .ok c.value := by
  obtain ⟨type, -, h⟩ := bind_eq_ok.mp h
  obtain ⟨x, hx, h⟩ := bind_eq_ok.mp h
  cases h
  exact ⟨rfl, hx⟩

end Code.Target

end Shading
