import Shading.Proofs.Reading.Grammar

/-!
# Trees of written expressions

The tree that an expression of shader code is meant to have, and the one change that leaving out
parentheses makes to it: a sum or difference on the right of `+`, and a product, quotient or
remainder on the right of `*`, is regrouped from the left.
-/

namespace Shading.Reading

/-! ### Regrouping -/

/-- Whether the operand `_ o _` on the right of `op` is written without parentheses. -/
def regroups : BinaryOp → BinaryOp → Bool
  | .add, o => isTerm o
  | .mul, o => isFactor o
  | _, _ => false

namespace Tree

/-- `left op right`, where `left` goes in front of the first operand of `right`'s chain if that
chain is written without parentheses: `a + (b - c)` becomes `(a + b) - c`. -/
def graft (op : BinaryOp) (left : Tree) : Tree → Tree
  | binary o a b =>
    if regroups op o then binary o (graft op left a) b else binary op left (binary o a b)
  | t => binary op left t

mutual

/-- Regroup every operand whose parentheses are left out. -/
def regroup : Tree → Tree
  | word s => word s
  | unary op a => unary op (regroup a)
  | binary op a b => graft op (regroup a) (regroup b)
  | call callee args => call callee (regroupAll args)
  | member a name => member (regroup a) name
  | index a i => index (regroup a) (regroup i)

def regroupAll : List Tree → List Tree
  | [] => []
  | t :: ts => regroup t :: regroupAll ts

end

/-- Whether the tree is an operation by one of the operators. -/
def isBy (joins : BinaryOp → Bool) : Tree → Bool
  | binary op _ _ => joins op
  | _ => false

theorem graft_of_isBy_eq_false {op : BinaryOp} {left t : Tree}
    (h : t.isBy (regroups op) = false) : graft op left t = binary op left t := by
  cases t with
  | binary o a b =>
      have ho : regroups op o = false := h
      simp [graft, ho]
  | _ => rfl

theorem graft_of_regroups_eq_false {op : BinaryOp} (h : ∀ o, regroups op o = false)
    (left t : Tree) : graft op left t = binary op left t := by
  apply graft_of_isBy_eq_false
  cases t with
  | binary o a b => exact h o
  | _ => rfl

theorem graft_binary {op o : BinaryOp} (h : regroups op o = true) (left a b : Tree) :
    graft op left (binary o a b) = binary o (graft op left a) b := by
  simp [graft, h]

/-- Grafting twice is grafting once, so a longer chain can be read operand by operand. -/
theorem graft_graft {op : BinaryOp} (h : regroups op op = true) (x y z : Tree) :
    graft op (graft op x y) z = graft op x (graft op y z) := by
  fun_induction graft op y z with
  | case1 o a b ho ih => rw [graft_binary ho, ih, graft_binary ho]
  | case2 o a b ho =>
      have hz : (binary o a b).isBy (regroups op) = false := by simpa [isBy] using ho
      rw [graft_of_isBy_eq_false hz, graft_binary h]
  | case3 t ht =>
      have hz : t.isBy (regroups op) = false := by
        cases t with
        | binary o a b => exact (ht o a b rfl).elim
        | _ => rfl
      rw [graft_of_isBy_eq_false hz, graft_binary h]

/-- Grafting keeps the kind of the chain. -/
theorem isBy_graft {op : BinaryOp} {joins : BinaryOp → Bool}
    (h : ∀ o, regroups op o = true → joins o = joins op) (x y : Tree) :
    (graft op x y).isBy joins = joins op := by
  cases y with
  | binary o a b =>
      by_cases ho : regroups op o = true
      · rw [graft_binary ho]
        exact h o ho
      · have hf : (binary o a b).isBy (regroups op) = false := by simpa [isBy] using ho
        rw [graft_of_isBy_eq_false hf]
        rfl
  | _ => rfl

end Tree

/-! ### Trees of shader code -/

mutual

/-- The tree of an expression of shader code. -/
def treeOf : Code.Expr → Tree
  | .word s => .word s
  | .unary op a => .unary op (treeOf a)
  | .binary op a b => .binary op (treeOf a) (treeOf b)
  | .call callee args => .call callee (treesOf args)
  | .member a name => .member (treeOf a) name
  | .index a i => .index (treeOf a) (treeOf i)
  | .suffixed (.word s) suffix => .word (s ++ suffix)
  | .suffixed a _ => treeOf a

def treesOf : List Code.Expr → List Tree
  | [] => []
  | e :: es => treeOf e :: treesOf es

end

mutual

/-- Only words have something attached to the end of their text. -/
def Readable : Code.Expr → Prop
  | .word _ => True
  | .unary _ a => Readable a
  | .binary _ a b => Readable a ∧ Readable b
  | .call _ args => ReadableAll args
  | .member a _ => Readable a
  | .index a i => Readable a ∧ Readable i
  | .suffixed (.word _) _ => True
  | .suffixed _ _ => False

def ReadableAll : List Code.Expr → Prop
  | [] => True
  | e :: es => Readable e ∧ ReadableAll es

end

end Shading.Reading
