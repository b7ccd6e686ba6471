import Shading.Error
import Shading.Proofs.Outcome
import Shading.Proofs.Reading.Scanning

/-!
# Outcomes of writing

What a writer of expressions gives, as a reader sees it: code with a certain tree that can be read
from its text, or a failure.  The statements go along with the ways in which writers put code
together.
-/

namespace Shading.Reading

/-! ### Expressions as written -/

theorem treesOf_eq_map (es : List Code.Expr) : treesOf es = es.map treeOf := by
  induction es with
  | nil => rfl
  | cons e es ih => simp only [treesOf, ih, List.map_cons]

theorem readableAll_iff (es : List Code.Expr) : ReadableAll es ↔ ∀ e ∈ es, Readable e := by
  induction es with
  | nil => simp [ReadableAll]
  | cons e es ih => simp [ReadableAll, ih]

theorem scannableAll_iff (es : List Code.Expr) : ScannableAll es ↔ ∀ e ∈ es, Scannable e := by
  induction es with
  | nil => simp [ScannableAll]
  | cons e es ih => simp [ScannableAll, ih]

/-- What is written for an expression: something readable with a given tree, and readable from its
text if names are names. -/
structure Written (named : Prop) (code : Code.Expr) (t : Tree) : Prop where
  readable : Readable code
  tree : treeOf code = t
  scannable : named → Scannable code

structure WrittenAll (named : Prop) (codes : List Code.Expr) (ts : List Tree) : Prop where
  readable : ReadableAll codes
  tree : treesOf codes = ts
  scannable : named → ScannableAll codes

section Written

variable {named : Prop} {code : Code.Expr} {codes : List Code.Expr} {t : Tree} {ts : List Tree}

theorem Written.parse (h : Written named code t) : parse (written code) = some t.regroup := by
  rw [parse_written h.readable, meaning, h.tree]

theorem Written.read (h : Written named code t) (hnamed : named) :
    read code.text = some (lexemes code.tokens) :=
  read_text (h.scannable hnamed)

theorem Written.ofWord {s : String} (hs : named → Alone s) : Written named (.word s) (.word s) :=
  ⟨by simp [Readable], by rw [treeOf], fun h ↦ by rw [Scannable]; exact hs h⟩

theorem Written.ofName {s : String} (hs : named → isName s = true) :
    Written named (.word s) (.word s) :=
  Written.ofWord fun h ↦ alone_of_isName (hs h)

theorem Written.suffixed {s suffix : String} (hs : named → isName (s ++ suffix) = true) :
    Written named (.suffixed (.word s) suffix) (.word (s ++ suffix)) where
  readable := by simp [Readable]
  tree := by rw [treeOf]
  scannable hn := by rw [Scannable]; exact alone_of_isName (hs hn)

theorem Written.member (h : Written named code t) {name : String}
    (hname : named → isName name = true) : Written named (.member code name) (.member t name) where
  readable := by rw [Readable]; exact h.readable
  tree := by rw [treeOf, h.tree]
  scannable hn := by rw [Scannable]; exact ⟨h.scannable hn, hname hn⟩

theorem Written.unary (h : Written named code t) (op : UnaryOp) :
    Written named (.unary op code) (.unary op t) where
  readable := by rw [Readable]; exact h.readable
  tree := by rw [treeOf, h.tree]
  scannable hn := by rw [Scannable]; exact h.scannable hn

theorem Written.binary {code' : Code.Expr} {t' : Tree} (h : Written named code t)
    (h' : Written named code' t') (op : BinaryOp) :
    Written named (.binary op code code') (.binary op t t') where
  readable := by rw [Readable]; exact ⟨h.readable, h'.readable⟩
  tree := by rw [treeOf, h.tree, h'.tree]
  scannable hn := by rw [Scannable]; exact ⟨h.scannable hn, h'.scannable hn⟩

theorem Written.index {code' : Code.Expr} {t' : Tree} (h : Written named code t)
    (h' : Written named code' t') : Written named (.index code code') (.index t t') where
  readable := by rw [Readable]; exact ⟨h.readable, h'.readable⟩
  tree := by rw [treeOf, h.tree, h'.tree]
  scannable hn := by rw [Scannable]; exact ⟨h.scannable hn, h'.scannable hn⟩

theorem WrittenAll.call (h : WrittenAll named codes ts) {callee : String}
    (hcallee : named → Called callee) : Written named (.call callee codes) (.call callee ts) where
  readable := by rw [Readable]; exact h.readable
  tree := by rw [treeOf, h.tree]
  scannable hn := by rw [Scannable]; exact ⟨hcallee hn, h.scannable hn⟩

theorem writtenAll_nil : WrittenAll named [] [] :=
  ⟨trivial, rfl, fun _ ↦ trivial⟩

theorem Written.cons (h : Written named code t) (hs : WrittenAll named codes ts) :
    WrittenAll named (code :: codes) (t :: ts) where
  readable := by rw [ReadableAll]; exact ⟨h.readable, hs.readable⟩
  tree := by rw [treesOf, h.tree, hs.tree]
  scannable hn := by rw [ScannableAll]; exact ⟨h.scannable hn, hs.scannable hn⟩

theorem WrittenAll.head (h : WrittenAll named (code :: codes) (t :: ts)) :
    Written named code t where
  readable := (readableAll_iff _).mp h.readable code List.mem_cons_self
  tree := by
    have htree := h.tree
    rw [treesOf] at htree
    exact (List.cons.inj htree).1
  scannable hn := (scannableAll_iff _).mp (h.scannable hn) code List.mem_cons_self

theorem Written.single (h : Written named code t) : WrittenAll named [code] [t] :=
  h.cons writtenAll_nil

theorem WrittenAll.append {codes' : List Code.Expr} {ts' : List Tree}
    (h : WrittenAll named codes ts) (h' : WrittenAll named codes' ts') :
    WrittenAll named (codes ++ codes') (ts ++ ts') where
  readable := by
    rw [readableAll_iff, List.forall_mem_append, ← readableAll_iff, ← readableAll_iff]
    exact ⟨h.readable, h'.readable⟩
  tree := by
    rw [treesOf_eq_map, List.map_append, ← treesOf_eq_map, ← treesOf_eq_map, h.tree, h'.tree]
  scannable hn := by
    rw [scannableAll_iff, List.forall_mem_append, ← scannableAll_iff, ← scannableAll_iff]
    exact ⟨h.scannable hn, h'.scannable hn⟩

end Written

/-! ### Outcomes of writing -/

/-- An outcome of writing: nothing but what has a given property, and something if `sure`. -/
structure Gives {α : Type} (sure : Prop) (P : α → Prop) (outcome : Except Error α) : Prop where
  written : ∀ a, outcome = .ok a → P a
  succeeds : sure → ∃ a, outcome = .ok a

/-- Code with a given tree. -/
abbrev Yields (named sure : Prop) (outcome : Except Error Code.Expr) (t : Tree) : Prop :=
  Gives sure (Written named · t) outcome

abbrev YieldsAll (named sure : Prop) (outcome : Except Error (List Code.Expr))
    (ts : List Tree) : Prop :=
  Gives sure (WrittenAll named · ts) outcome

theorem gives_ok {α : Type} {sure : Prop} {P : α → Prop} {a : α} (h : P a) :
    Gives sure P (.ok a) where
  written _ ha := by
    cases ha
    exact h
  succeeds _ := ⟨a, rfl⟩

theorem Gives.bind {α β : Type} {sure : Prop} {P : α → Prop} {Q : β → Prop} {x : Except Error α}
    {f : α → Except Error β} (hx : Gives sure P x) (hf : ∀ a, P a → Gives sure Q (f a)) :
    Gives sure Q (x >>= f) where
  written b hb := by
    obtain ⟨a, ha, hb⟩ := bind_eq_ok.mp hb
    exact (hf a (hx.written a ha)).written b hb
  succeeds hsure := by
    obtain ⟨a, ha⟩ := hx.succeeds hsure
    obtain ⟨b, hb⟩ := (hf a (hx.written a ha)).succeeds hsure
    exact ⟨b, bind_eq_ok.mpr ⟨a, ha, hb⟩⟩

section Outcomes

variable {named sure : Prop} {x y : Except Error Code.Expr} {t u : Tree}
variable {xs : Except Error (List Code.Expr)} {ts : List Tree}

theorem Written.yields {code : Code.Expr} (h : Written named code t) :
    Yields named sure (.ok code) t :=
  gives_ok h

theorem Yields.unary (hx : Yields named sure x t) (op : UnaryOp) :
    Yields named sure (do return .unary op (← x)) (.unary op t) :=
  hx.bind fun _ hw ↦ (hw.unary op).yields

theorem Yields.member (hx : Yields named sure x t) {name : String}
    (hname : named → isName name = true) :
    Yields named sure (do return .member (← x) name) (.member t name) :=
  hx.bind fun _ hw ↦ (hw.member hname).yields

theorem Yields.binary (hx : Yields named sure x t) (hy : Yields named sure y u) (op : BinaryOp) :
    Yields named sure (do return .binary op (← x) (← y)) (.binary op t u) :=
  hx.bind fun _ hw ↦ hy.bind fun _ hw' ↦ (hw.binary hw' op).yields

theorem Yields.index (hx : Yields named sure x t) (hy : Yields named sure y u) :
    Yields named sure (do return .index (← x) (← y)) (.index t u) :=
  hx.bind fun _ hw ↦ hy.bind fun _ hw' ↦ (hw.index hw').yields

theorem YieldsAll.call (hxs : YieldsAll named sure xs ts) {callee : String}
    (hcallee : named → Called callee) :
    Yields named sure (do return .call callee (← xs)) (.call callee ts) :=
  hxs.bind fun _ hw ↦ (hw.call hcallee).yields

theorem Yields.cons (hx : Yields named sure x t) (hxs : YieldsAll named sure xs ts) :
    YieldsAll named sure (do return (← x) :: (← xs)) (t :: ts) :=
  hx.bind fun _ hw ↦ hxs.bind fun _ hws ↦ gives_ok (hw.cons hws)

theorem yieldsAll_mapM {outcomes : List (Except Error Code.Expr)}
    (h : List.Forall₂ (Yields named sure) outcomes ts) :
    YieldsAll named sure (outcomes.mapM id) ts := by
  induction h with
  | nil => exact gives_ok writtenAll_nil
  | cons hx _ ih =>
      rw [List.mapM_cons]
      exact Yields.cons hx ih

end Outcomes

end Shading.Reading
