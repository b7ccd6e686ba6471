import Shading.Code.Lower
import Shading.Proofs.Outcome
import Shading.Proofs.Usage.Expansion

/-!
# Leaving a function

A target language carries the statements of a body over one by one and replaces each return.  The
returns of the outcome are in its blocks, which are the body itself and the bodies of conditionals
and loops, at any depth.
-/

namespace Shading.Code

/-! ### Blocks -/

mutual

/-- The blocks inside of a statement. -/
def Statement.blocks : Statement → List (List Statement)
  | .branch _ body rest => body :: (blocksWithin body ++ rest.blocks)
  | .forLoop _ _ _ _ _ body => body :: blocksWithin body
  | .whileLoop _ body => body :: blocksWithin body
  | _ => []

/-- The blocks inside of the statements of a block. -/
def blocksWithin : List Statement → List (List Statement)
  | [] => []
  | s :: ss => s.blocks ++ blocksWithin ss

def Otherwise.blocks : Otherwise → List (List Statement)
  | .nothing => []
  | .always body => body :: blocksWithin body
  | .test _ body rest => body :: (blocksWithin body ++ rest.blocks)

end

/-- A block and the blocks inside of it. -/
def blocks (body : List Statement) : List (List Statement) :=
  body :: blocksWithin body

theorem blocksWithin_append (ss ss' : List Statement) :
    blocksWithin (ss ++ ss') = blocksWithin ss ++ blocksWithin ss' := by
  induction ss with
  | nil => rfl
  | cons s ss ih => rw [List.cons_append, blocksWithin, blocksWithin, ih, List.append_assoc]

/-! ### Replacing returns -/

mutual

/-- A statement with other statements in the place of every return in it. -/
def Statement.withExits (exit : Option Expr → List Statement) : Statement → List Statement
  | .leave value => exit value
  | .branch condition body rest =>
    [.branch condition (withExitsAll exit body) (rest.withExits exit)]
  | .forLoop type counter init condition next body =>
    [.forLoop type counter init condition next (withExitsAll exit body)]
  | .whileLoop condition body => [.whileLoop condition (withExitsAll exit body)]
  | .declare type name init => [.declare type name init]
  | .assign target op value => [.assign target op value]
  | .skip => [.skip]
  | .stop => [.stop]
  | .discard => [.discard]
  | .verbatim text => [.verbatim text]

def withExitsAll (exit : Option Expr → List Statement) : List Statement → List Statement
  | [] => []
  | s :: ss => s.withExits exit ++ withExitsAll exit ss

def Otherwise.withExits (exit : Option Expr → List Statement) : Otherwise → Otherwise
  | .nothing => .nothing
  | .always body => .always (withExitsAll exit body)
  | .test condition body rest => .test condition (withExitsAll exit body) (rest.withExits exit)

end

variable {exit : Option Expr → List Statement}

theorem withExitsAll_append (ss ss' : List Statement) :
    withExitsAll exit (ss ++ ss') = withExitsAll exit ss ++ withExitsAll exit ss' := by
  induction ss with
  | nil => rfl
  | cons s ss ih => rw [List.cons_append, withExitsAll, withExitsAll, ih, List.append_assoc]

mutual

theorem Statement.withExits_leave :
    ∀ s : Statement, s.withExits (fun value ↦ [.leave value]) = [s]
  | .branch _ body rest => by
    rw [Statement.withExits, withExitsAll_leave body, Otherwise.withExits_leave rest]
  | .forLoop _ _ _ _ _ body => by rw [Statement.withExits, withExitsAll_leave body]
  | .whileLoop _ body => by rw [Statement.withExits, withExitsAll_leave body]
  | .leave _ => by rw [Statement.withExits]
  | .declare .. => by rw [Statement.withExits]
  | .assign .. => by rw [Statement.withExits]
  | .skip => by rw [Statement.withExits]
  | .stop => by rw [Statement.withExits]
  | .discard => by rw [Statement.withExits]
  | .verbatim _ => by rw [Statement.withExits]

/-- Returns may be kept. -/
theorem withExitsAll_leave :
    ∀ ss : List Statement, withExitsAll (fun value ↦ [.leave value]) ss = ss
  | [] => by rw [withExitsAll]
  | s :: ss => by
    rw [withExitsAll, Statement.withExits_leave s, withExitsAll_leave ss, List.singleton_append]

theorem Otherwise.withExits_leave :
    ∀ rest : Otherwise, rest.withExits (fun value ↦ [.leave value]) = rest
  | .nothing => by rw [Otherwise.withExits]
  | .always body => by rw [Otherwise.withExits, withExitsAll_leave body]
  | .test _ body rest => by
    rw [Otherwise.withExits, withExitsAll_leave body, Otherwise.withExits_leave rest]

end

mutual

theorem Statement.mem_blocks_withExits (hexit : ∀ value, blocksWithin (exit value) = []) :
    ∀ (s : Statement) {b : List Statement}, b ∈ blocksWithin (s.withExits exit) →
      ∃ b', b = withExitsAll exit b'
  | .branch _ body rest, b, hb => by
    simp only [Statement.withExits, blocksWithin, Statement.blocks, List.append_nil, List.mem_cons,
      List.mem_append] at hb
    rcases hb with rfl | hb | hb
    · exact ⟨body, rfl⟩
    · exact mem_blocks_withExitsAll hexit body hb
    · exact Otherwise.mem_blocks_withExits hexit rest hb
  | .forLoop _ _ _ _ _ body, b, hb => by
    simp only [Statement.withExits, blocksWithin, Statement.blocks, List.append_nil,
      List.mem_cons] at hb
    rcases hb with rfl | hb
    · exact ⟨body, rfl⟩
    · exact mem_blocks_withExitsAll hexit body hb
  | .whileLoop _ body, b, hb => by
    simp only [Statement.withExits, blocksWithin, Statement.blocks, List.append_nil,
      List.mem_cons] at hb
    rcases hb with rfl | hb
    · exact ⟨body, rfl⟩
    · exact mem_blocks_withExitsAll hexit body hb
  | .leave value, b, hb => by
    rw [Statement.withExits, hexit value] at hb
    cases hb
  | .declare .., b, hb => by cases hb
  | .assign .., b, hb => by cases hb
  | .skip, b, hb => by cases hb
  | .stop, b, hb => by cases hb
  | .discard, b, hb => by cases hb
  | .verbatim _, b, hb => by cases hb

/-- If exits have no blocks in them, all blocks have their returns replaced. -/
theorem mem_blocks_withExitsAll (hexit : ∀ value, blocksWithin (exit value) = []) :
    ∀ (ss : List Statement) {b : List Statement}, b ∈ blocksWithin (withExitsAll exit ss) →
      ∃ b', b = withExitsAll exit b'
  | [], b, hb => by cases hb
  | s :: ss, b, hb => by
    rw [withExitsAll, blocksWithin_append] at hb
    rcases List.mem_append.mp hb with hb | hb
    · exact Statement.mem_blocks_withExits hexit s hb
    · exact mem_blocks_withExitsAll hexit ss hb

theorem Otherwise.mem_blocks_withExits (hexit : ∀ value, blocksWithin (exit value) = []) :
    ∀ (rest : Otherwise) {b : List Statement}, b ∈ (rest.withExits exit).blocks →
      ∃ b', b = withExitsAll exit b'
  | .nothing, b, hb => by cases hb
  | .always body, b, hb => by
    rw [Otherwise.withExits, Otherwise.blocks] at hb
    rcases List.mem_cons.mp hb with rfl | hb
    · exact ⟨body, rfl⟩
    · exact mem_blocks_withExitsAll hexit body hb
  | .test _ body rest, b, hb => by
    simp only [Otherwise.withExits, Otherwise.blocks, List.mem_cons, List.mem_append] at hb
    rcases hb with rfl | hb | hb
    · exact ⟨body, rfl⟩
    · exact mem_blocks_withExitsAll hexit body hb
    · exact Otherwise.mem_blocks_withExits hexit rest hb

end

/-! ### Returns -/

/-- A return with this value stands in a block, at any depth. -/
def HasReturn (body : List Statement) (value : Option Expr) : Prop :=
  ∃ b ∈ blocks body, .leave value ∈ b

theorem hasReturn_append {ss ss' : List Statement} {value : Option Expr} :
    HasReturn (ss ++ ss') value ↔ HasReturn ss value ∨ HasReturn ss' value := by
  simp only [HasReturn, blocks, blocksWithin_append, List.mem_cons, List.mem_append, or_and_right,
    exists_or, exists_eq_left]
  exact or_or_or_comm

theorem hasReturn_singleton {s : Statement} {value : Option Expr} :
    HasReturn [s] value ↔ s = .leave value ∨ ∃ b ∈ s.blocks, .leave value ∈ b := by
  simp only [HasReturn, blocks, blocksWithin, List.append_nil, List.mem_cons, exists_eq_or_imp,
    List.not_mem_nil, or_false, eq_comm]

theorem not_hasReturn_singleton {s : Statement} {value : Option Expr} (hs : s ≠ .leave value)
    (hblocks : s.blocks = []) : ¬ HasReturn [s] value := by
  rw [hasReturn_singleton, hblocks]
  simp [hs]

/-- Every return of a list returns a word, right after some other statements. -/
def LeavesAfter (before : List Statement) (word : String) (ss : List Statement) : Prop :=
  ∀ l value l', ss = l ++ .leave value :: l' → value = some (.word word) ∧ ∃ k, l = k ++ before

theorem LeavesAfter.append {before ss ss' : List Statement} {word : String}
    (h : LeavesAfter before word ss) (h' : LeavesAfter before word ss') :
    LeavesAfter before word (ss ++ ss') := by
  intro l value l' hsplit
  rcases List.append_eq_append_iff.mp hsplit with ⟨k, rfl, hk⟩ | ⟨k, rfl, hk⟩
  · obtain ⟨hvalue, k', rfl⟩ := h' k value l' hk
    exact ⟨hvalue, ss ++ k', (List.append_assoc ss k' before).symm⟩
  · rcases List.cons_eq_append_iff.mp hk with ⟨rfl, rfl⟩ | ⟨k, rfl, -⟩
    · obtain ⟨hvalue, k', hk'⟩ := h' [] value l' rfl
      obtain ⟨-, rfl⟩ := List.append_eq_nil_iff.mp hk'.symm
      exact ⟨hvalue, l, (List.append_nil l).symm⟩
    · exact h l value k rfl

theorem leavesAfter_of_forall_ne {before ss : List Statement} {word : String}
    (h : ∀ value, .leave value ∉ ss) : LeavesAfter before word ss := by
  rintro l value l' rfl
  exact absurd (List.mem_append_right l List.mem_cons_self) (h value)

theorem leavesAfter_withExitsAll {before : List Statement} {word : String}
    (hexit : ∀ value, LeavesAfter before word (exit value)) (ss : List Statement) :
    LeavesAfter before word (withExitsAll exit ss) := by
  induction ss with
  | nil => exact leavesAfter_of_forall_ne fun _ ↦ List.not_mem_nil
  | cons s ss ih =>
      rw [withExitsAll]
      refine .append ?_ ih
      cases s with
      | leave value =>
          rw [Statement.withExits]
          exact hexit value
      | _ =>
          rw [Statement.withExits]
          exact leavesAfter_of_forall_ne fun _ ↦ by simp

/-! ### Carrying a body over -/

namespace Target

/-- The same language with returns left as they are. -/
def keepingReturns (t : Target) : Target :=
  { t with leave := fun value ↦ [.leave value] }

theorem option_keepingReturns (t : Target) (value : Option Shading.Expr) :
    t.keepingReturns.option value = t.option value := by
  cases value <;> rfl

mutual

theorem statement_withExits (t : Target) : ∀ (s : Shading.Statement) {code : List Statement},
    t.statement s = .ok code → ∃ kept, t.keepingReturns.statement s = .ok kept ∧
      code = withExitsAll t.leave kept
  | .declare type h init, code, hcode => by
    obtain ⟨ty, hty, hcode⟩ := bind_eq_ok.mp hcode
    obtain ⟨v, hv, hcode⟩ := bind_eq_ok.mp hcode
    cases hcode
    rw [← option_keepingReturns] at hv
    exact ⟨_, bind_eq_ok.mpr ⟨ty, hty, bind_eq_ok.mpr ⟨v, hv, rfl⟩⟩, rfl⟩
  | .assign target op value, code, hcode => by
    obtain ⟨a, ha, hcode⟩ := bind_eq_ok.mp hcode
    obtain ⟨v, hv, hcode⟩ := bind_eq_ok.mp hcode
    cases hcode
    exact ⟨_, bind_eq_ok.mpr ⟨a, ha, bind_eq_ok.mpr ⟨v, hv, rfl⟩⟩, rfl⟩
  | .leave value, code, hcode => by
    obtain ⟨v, hv, hcode⟩ := bind_eq_ok.mp hcode
    cases hcode
    rw [← option_keepingReturns] at hv
    refine ⟨[.leave v], bind_eq_ok.mpr ⟨v, hv, rfl⟩, ?_⟩
    rw [withExitsAll, withExitsAll, Statement.withExits, List.append_nil]
  | .skip, code, hcode => by
    cases hcode
    exact ⟨[.skip], rfl, rfl⟩
  | .stop, code, hcode => by
    cases hcode
    exact ⟨[.stop], rfl, rfl⟩
  | .discard, code, hcode => by
    cases hcode
    exact ⟨[.discard], rfl, rfl⟩
  | .branch condition body rest, code, hcode => by
    obtain ⟨c, hc, hcode⟩ := bind_eq_ok.mp hcode
    obtain ⟨b, hb, hcode⟩ := bind_eq_ok.mp hcode
    obtain ⟨r, hr, hcode⟩ := bind_eq_ok.mp hcode
    cases hcode
    obtain ⟨b', hb', rfl⟩ := block_withExits t body hb
    obtain ⟨r', hr', rfl⟩ := otherwise_withExits t rest hr
    exact ⟨_, bind_eq_ok.mpr ⟨c, hc, bind_eq_ok.mpr ⟨b', hb', bind_eq_ok.mpr ⟨r', hr', rfl⟩⟩⟩, rfl⟩
  | .forLoop type h init condition next body, code, hcode => by
    obtain ⟨ty, hty, hcode⟩ := bind_eq_ok.mp hcode
    obtain ⟨i, hi, hcode⟩ := bind_eq_ok.mp hcode
    obtain ⟨c, hc, hcode⟩ := bind_eq_ok.mp hcode
    obtain ⟨n, hn, hcode⟩ := bind_eq_ok.mp hcode
    obtain ⟨b, hb, hcode⟩ := bind_eq_ok.mp hcode
    cases hcode
    obtain ⟨b', hb', rfl⟩ := block_withExits t body hb
    exact ⟨_, bind_eq_ok.mpr ⟨ty, hty, bind_eq_ok.mpr ⟨i, hi, bind_eq_ok.mpr ⟨c, hc,
      bind_eq_ok.mpr ⟨n, hn, bind_eq_ok.mpr ⟨b', hb', rfl⟩⟩⟩⟩⟩, rfl⟩
  | .whileLoop condition body, code, hcode => by
    obtain ⟨c, hc, hcode⟩ := bind_eq_ok.mp hcode
    obtain ⟨b, hb, hcode⟩ := bind_eq_ok.mp hcode
    cases hcode
    obtain ⟨b', hb', rfl⟩ := block_withExits t body hb
    exact ⟨_, bind_eq_ok.mpr ⟨c, hc, bind_eq_ok.mpr ⟨b', hb', rfl⟩⟩, rfl⟩
  | .raw glsl wgsl, code, hcode => by
    cases hcode
    exact ⟨_, rfl, rfl⟩

theorem block_withExits (t : Target) : ∀ (ss : List Shading.Statement) {code : List Statement},
    t.block ss = .ok code → ∃ kept, t.keepingReturns.block ss = .ok kept ∧
      code = withExitsAll t.leave kept
  | [], code, hcode => by
    cases hcode
    exact ⟨[], rfl, rfl⟩
  | s :: ss, code, hcode => by
    obtain ⟨first, hfirst, hcode⟩ := bind_eq_ok.mp hcode
    obtain ⟨more, hmore, hcode⟩ := bind_eq_ok.mp hcode
    cases hcode
    obtain ⟨kept, hkept, rfl⟩ := statement_withExits t s hfirst
    obtain ⟨kept', hkept', rfl⟩ := block_withExits t ss hmore
    refine ⟨kept ++ kept', ?_, (withExitsAll_append kept kept').symm⟩
    rw [block, hkept, ok_bind, hkept']
    rfl

theorem otherwise_withExits (t : Target) : ∀ (rest : Shading.Otherwise) {code : Otherwise},
    t.otherwise rest = .ok code → ∃ kept, t.keepingReturns.otherwise rest = .ok kept ∧
      code = kept.withExits t.leave
  | .nothing, code, hcode => by
    cases hcode
    exact ⟨.nothing, rfl, rfl⟩
  | .always body, code, hcode => by
    obtain ⟨b, hb, hcode⟩ := bind_eq_ok.mp hcode
    cases hcode
    obtain ⟨b', hb', rfl⟩ := block_withExits t body hb
    exact ⟨_, bind_eq_ok.mpr ⟨b', hb', rfl⟩, rfl⟩
  | .test condition body rest, code, hcode => by
    obtain ⟨c, hc, hcode⟩ := bind_eq_ok.mp hcode
    obtain ⟨b, hb, hcode⟩ := bind_eq_ok.mp hcode
    obtain ⟨r, hr, hcode⟩ := bind_eq_ok.mp hcode
    cases hcode
    obtain ⟨b', hb', rfl⟩ := block_withExits t body hb
    obtain ⟨r', hr', rfl⟩ := otherwise_withExits t rest hr
    exact ⟨_, bind_eq_ok.mpr ⟨c, hc, bind_eq_ok.mpr ⟨b', hb', bind_eq_ok.mpr ⟨r', hr', rfl⟩⟩⟩, rfl⟩

end

mutual

theorem hasReturn_statement (t : Target) : ∀ (s : Shading.Statement) {kept : List Statement}
    {value : Option Expr}, t.keepingReturns.statement s = .ok kept → HasReturn kept value →
      ∃ v, .leave v ∈ s.within ∧ v.isSome = value.isSome
  | .declare type h init, kept, value, hkept, hreturn => by
    obtain ⟨ty, -, hkept⟩ := bind_eq_ok.mp hkept
    obtain ⟨v, -, hkept⟩ := bind_eq_ok.mp hkept
    cases hkept
    exact (not_hasReturn_singleton (by simp) rfl hreturn).elim
  | .assign target op a, kept, value, hkept, hreturn => by
    obtain ⟨c, -, hkept⟩ := bind_eq_ok.mp hkept
    obtain ⟨v, -, hkept⟩ := bind_eq_ok.mp hkept
    cases hkept
    exact (not_hasReturn_singleton (by simp) rfl hreturn).elim
  | .leave v, kept, value, hkept, hreturn => by
    obtain ⟨c, hc, hkept⟩ := bind_eq_ok.mp hkept
    cases hkept
    rcases hasReturn_singleton.mp hreturn with heq | ⟨b, hb, -⟩
    · cases heq
      refine ⟨v, List.mem_singleton_self _, ?_⟩
      cases v with
      | none =>
          cases hc
          rfl
      | some e =>
          obtain ⟨x, -, hx⟩ := bind_eq_ok.mp hc
          cases hx
          rfl
    · cases hb
  | .skip, kept, value, hkept, hreturn => by
    cases hkept
    exact (not_hasReturn_singleton (by simp) rfl hreturn).elim
  | .stop, kept, value, hkept, hreturn => by
    cases hkept
    exact (not_hasReturn_singleton (by simp) rfl hreturn).elim
  | .discard, kept, value, hkept, hreturn => by
    cases hkept
    exact (not_hasReturn_singleton (by simp) rfl hreturn).elim
  | .branch condition body rest, kept, value, hkept, hreturn => by
    obtain ⟨c, -, hkept⟩ := bind_eq_ok.mp hkept
    obtain ⟨bs, hbs, hkept⟩ := bind_eq_ok.mp hkept
    obtain ⟨r, hr, hkept⟩ := bind_eq_ok.mp hkept
    cases hkept
    rcases hasReturn_singleton.mp hreturn with heq | ⟨b, hb, hmem⟩
    · cases heq
    rcases List.mem_append.mp (show b ∈ blocks bs ++ r.blocks from hb) with hb | hb
    · obtain ⟨v, hv, hsome⟩ := hasReturn_block t body hbs ⟨b, hb, hmem⟩
      exact ⟨v, List.mem_cons_of_mem _ (List.mem_append_left _ hv), hsome⟩
    · obtain ⟨v, hv, hsome⟩ := hasReturn_otherwise t rest hr hb hmem
      exact ⟨v, List.mem_cons_of_mem _ (List.mem_append_right _ hv), hsome⟩
  | .forLoop type h init condition next body, kept, value, hkept, hreturn => by
    obtain ⟨ty, -, hkept⟩ := bind_eq_ok.mp hkept
    obtain ⟨i, -, hkept⟩ := bind_eq_ok.mp hkept
    obtain ⟨c, -, hkept⟩ := bind_eq_ok.mp hkept
    obtain ⟨n, -, hkept⟩ := bind_eq_ok.mp hkept
    obtain ⟨bs, hbs, hkept⟩ := bind_eq_ok.mp hkept
    cases hkept
    rcases hasReturn_singleton.mp hreturn with heq | ⟨b, hb, hmem⟩
    · cases heq
    obtain ⟨v, hv, hsome⟩ := hasReturn_block t body hbs ⟨b, hb, hmem⟩
    exact ⟨v, List.mem_cons_of_mem _ hv, hsome⟩
  | .whileLoop condition body, kept, value, hkept, hreturn => by
    obtain ⟨c, -, hkept⟩ := bind_eq_ok.mp hkept
    obtain ⟨bs, hbs, hkept⟩ := bind_eq_ok.mp hkept
    cases hkept
    rcases hasReturn_singleton.mp hreturn with heq | ⟨b, hb, hmem⟩
    · cases heq
    obtain ⟨v, hv, hsome⟩ := hasReturn_block t body hbs ⟨b, hb, hmem⟩
    exact ⟨v, List.mem_cons_of_mem _ hv, hsome⟩
  | .raw glsl wgsl, kept, value, hkept, hreturn => by
    cases hkept
    exact (not_hasReturn_singleton (by simp) rfl hreturn).elim

/-- The returns in code stand for returns in the body. -/
theorem hasReturn_block (t : Target) : ∀ (ss : List Shading.Statement) {kept : List Statement}
    {value : Option Expr}, t.keepingReturns.block ss = .ok kept → HasReturn kept value →
      ∃ v, .leave v ∈ Block.within ss ∧ v.isSome = value.isSome
  | [], kept, value, hkept, hreturn => by
    cases hkept
    obtain ⟨b, hb, hmem⟩ := hreturn
    cases List.mem_singleton.mp hb
    cases hmem
  | s :: ss, kept, value, hkept, hreturn => by
    obtain ⟨first, hfirst, hkept⟩ := bind_eq_ok.mp hkept
    obtain ⟨more, hmore, hkept⟩ := bind_eq_ok.mp hkept
    cases hkept
    rcases hasReturn_append.mp hreturn with hreturn | hreturn
    · obtain ⟨v, hv, hsome⟩ := hasReturn_statement t s hfirst hreturn
      exact ⟨v, List.mem_append_left _ hv, hsome⟩
    · obtain ⟨v, hv, hsome⟩ := hasReturn_block t ss hmore hreturn
      exact ⟨v, List.mem_append_right _ hv, hsome⟩

theorem hasReturn_otherwise (t : Target) : ∀ (rest : Shading.Otherwise) {kept : Otherwise}
    {value : Option Expr} {b : List Statement}, t.keepingReturns.otherwise rest = .ok kept →
      b ∈ kept.blocks → .leave value ∈ b → ∃ v, .leave v ∈ rest.within ∧ v.isSome = value.isSome
  | .nothing, kept, value, b, hkept, hb, hmem => by
    cases hkept
    cases hb
  | .always body, kept, value, b, hkept, hb, hmem => by
    obtain ⟨c, hc, hkept⟩ := bind_eq_ok.mp hkept
    cases hkept
    exact hasReturn_block t body hc ⟨b, hb, hmem⟩
  | .test condition body rest, kept, value, b, hkept, hb, hmem => by
    obtain ⟨c, -, hkept⟩ := bind_eq_ok.mp hkept
    obtain ⟨bs, hbs, hkept⟩ := bind_eq_ok.mp hkept
    obtain ⟨r, hr, hkept⟩ := bind_eq_ok.mp hkept
    cases hkept
    rcases List.mem_append.mp (show b ∈ blocks bs ++ r.blocks from hb) with hb | hb
    · obtain ⟨v, hv, hsome⟩ := hasReturn_block t body hbs ⟨b, hb, hmem⟩
      exact ⟨v, List.mem_append_left _ hv, hsome⟩
    · obtain ⟨v, hv, hsome⟩ := hasReturn_otherwise t rest hr hb hmem
      exact ⟨v, List.mem_append_right _ hv, hsome⟩

end

theorem block_append (t : Target) (ss ss' : List Shading.Statement) {code : List Statement}
    (h : t.block (ss ++ ss') = .ok code) :
    ∃ first last, t.block ss = .ok first ∧ t.block ss' = .ok last ∧ code = first ++ last := by
  induction ss generalizing code with
  | nil => exact ⟨[], code, rfl, h, rfl⟩
  | cons s ss ih =>
      obtain ⟨first, hfirst, h⟩ := bind_eq_ok.mp h
      obtain ⟨more, hmore, h⟩ := bind_eq_ok.mp h
      cases h
      obtain ⟨mid, last, hmid, hlast, rfl⟩ := ih hmore
      refine ⟨first ++ mid, last, ?_, hlast, (List.append_assoc first mid last).symm⟩
      exact bind_eq_ok.mpr ⟨first, hfirst, bind_eq_ok.mpr ⟨mid, hmid, rfl⟩⟩

/-- A body that ends with a return still does so. -/
theorem exists_leave_last (t : Target) {body : Block} {kept : List Statement}
    (h : t.keepingReturns.block body = .ok kept) (hends : body.endsWithLeave = true) :
    ∃ first value, kept = first ++ [.leave value] := by
  unfold Block.endsWithLeave at hends
  split at hends
  · next v hlast =>
    obtain ⟨ss, rfl⟩ := List.getLast?_eq_some_iff.mp hlast
    obtain ⟨first, last, -, hlast, rfl⟩ := block_append _ ss [.leave v] h
    obtain ⟨code, hcode, hlast⟩ := bind_eq_ok.mp hlast
    obtain ⟨value, -, hcode⟩ := bind_eq_ok.mp hcode
    cases hcode
    cases hlast
    exact ⟨first, value, rfl⟩
  · cases hends

end Target

end Shading.Code
