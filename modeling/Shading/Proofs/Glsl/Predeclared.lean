import Shading.Proofs.Code.Failures
import Shading.Proofs.Emission.Lookups
import Shading.Proofs.Glsl.Closed

/-!
# Predeclared names

GLSL predeclares names that begin with `gl_`.  Its numbers, types and functions have no underscore
in them, so that such a name is in an expression only if a built-in value or a fragment output is
written with it, or if the author of the expression chose it.
-/

namespace Shading

/-! ### Chosen names -/

/-- The name under which something is declared. -/
def Handle.name? : Handle → Option String
  | .uniform n => some n
  | .uniformStruct n => some n
  | .vertexAttribute n => some n
  | .varying n => some n
  | .output n => some n
  | .sampler n => some n
  | _ => none

/-- The author of an expression chose a name in it: that of a helper, of a field or of something
declared.  Fragment outputs do not count, since version 1.00 of GLSL does not name them. -/
inductive Expr.Names (r : Expr) : String → Prop
  | handle {h : Handle} {n : String} (hread : .read h ∈ Usage.Event.ofExpr r)
      (houtput : h ≠ .output n) (hname : h.name? = some n) : Names r n
  | helper {n : String} (hcall : .call n ∈ Usage.Event.ofExpr r) : Names r n
  | field {a : Expr} {n : String} (hfield : r.Within (.field a n)) : Names r n

/-! ### Words without an underscore -/

/-- A text without an underscore. -/
def Joined (s : String) : Prop :=
  '_' ∉ s.toList

instance (s : String) : Decidable (Joined s) :=
  inferInstanceAs (Decidable ('_' ∉ s.toList))

theorem Joined.append {s s' : String} (h : Joined s) (h' : Joined s') : Joined (s ++ s') := by
  rw [Joined, String.toList_append, List.mem_append]
  exact not_or.mpr ⟨h, h'⟩

theorem joined_nat (n : Nat) : Joined (toString n) := by
  simp [Joined]

theorem joined_int (n : Int) : Joined (toString n) := by
  cases n <;> simp [Joined, toString, Int.repr]

namespace Decimal

theorem joined_positional (d : Decimal) : Joined d.positional := by
  have hdigits := joined_nat d.digits
  have hpadded : ∀ n, '_' ∉ List.replicate n '0' ++ (toString d.digits).toList := by
    intro n
    rw [List.mem_append, not_or]
    exact ⟨fun h ↦ absurd (List.eq_of_mem_replicate h) (by decide), hdigits⟩
  unfold positional
  dsimp only
  split
  · refine hdigits.append ?_
    rw [Joined, String.toList_ofList]
    exact fun h ↦ absurd (List.eq_of_mem_replicate h) (by decide)
  · simp only [Joined, String.toList_append, String.toList_ofList, List.mem_append, not_or]
    exact ⟨⟨fun h ↦ hpadded _ (List.mem_of_mem_take h), by decide⟩,
      fun h ↦ hpadded _ (List.mem_of_mem_drop h)⟩

theorem joined_scientific (d : Decimal) : Joined d.scientific := by
  have hdigits := joined_nat d.digits
  unfold scientific
  dsimp only
  refine (Joined.append ?_ (by decide)).append (joined_int _)
  rw [Joined] at hdigits
  generalize (toString d.digits).toList = digits at hdigits ⊢
  split <;> simp_all [Joined]

end Decimal

theorem Binary32.joined_text (x : Binary32) : Joined x.text := by
  unfold text
  split
  · decide
  split
  · decide
  split
  · decide
  split
  · exact Decimal.joined_scientific _
  split
  · exact (joined_nat _).append (by decide)
  · exact Decimal.joined_positional _

namespace Code

theorem joined_signed {negative : Bool} {text : String} (h : Joined text) :
    ∀ w ∈ (signed negative text).words, Joined w := by
  cases negative <;> simpa [signed] using h

theorem joined_components (l : Literal) : ∀ x ∈ components l, ∀ w ∈ x.words, Joined w := by
  intro x hx
  cases l with
  | int d v =>
      obtain ⟨c, -, rfl⟩ := List.mem_map.mp hx
      exact joined_signed (joined_nat _)
  | uint d v =>
      obtain ⟨c, -, rfl⟩ := List.mem_map.mp hx
      simpa [uintComponent] using (joined_nat c.toNat).append (by decide : Joined "u")
  | float d v =>
      obtain ⟨c, -, rfl⟩ := List.mem_map.mp hx
      exact joined_signed c.joined_text
  | bool d v =>
      obtain ⟨c, -, rfl⟩ := List.mem_map.mp hx
      cases c <;> simp [boolComponent, Joined]
  | matrix m columns =>
      obtain ⟨c, -, rfl⟩ := List.mem_map.mp hx
      exact joined_signed c.joined_text

theorem joined_literal {spell : Prim → String} (hspell : ∀ p, Joined (spell p)) (l : Literal) :
    ∀ w ∈ (literal spell l).words, Joined w := by
  intro w hw
  have hcomponents := joined_components l
  unfold literal at hw
  split at hw
  · next c _ hc => exact hcomponents c (hc ▸ List.mem_singleton_self c) w hw
  · rw [Expr.words_call, List.mem_cons] at hw
    rcases hw with rfl | hw
    · exact hspell _
    · obtain ⟨x, hx, hw⟩ := List.mem_flatMap.mp hw
      exact hcomponents x hx w hw

end Code

theorem Swizzle.joined_text (s : Swizzle) : Joined s.text := by
  rw [Joined, Swizzle.text, String.toList_ofList, List.mem_map]
  rintro ⟨c, -, hc⟩
  cases c <;> cases hc

namespace Glsl

open Code (Mention)

theorem joined_primName (p : Prim) : Joined (primName p) := by
  rcases p with ⟨s, d⟩ | m
  · cases s <;> cases d <;> decide
  · cases m <;> decide

theorem joined_typeText (t : Ty) : Joined (typeText (.ofTy t)) := by
  refine (joined_primName t.prim).append ?_
  simp [Joined, dimsText]

theorem joined_calleeName {v : Version} {callee : Callee} {name : String}
    (h : calleeName v callee = .ok name) : (∀ n, callee ≠ .helper n) → Joined name := by
  intro hhelper
  cases callee with
  | construct p =>
      rw [calleeName, spellPrim] at h
      split at h
      · cases h
        exact joined_primName p
      · cases h
  | intrinsic f =>
      cases h
      cases f <;> decide
  | texture kind => cases v <;> cases kind <;> cases h <;> decide
  | texelFetch kind =>
      cases h
      decide
  | helper n => exact (hhelper n rfl).elim

theorem joined_callMentions {v : Version} {callee : Callee} {args : List (List Mention)}
    {ws : List String} (h : .own ws ∈ callMentions v callee args) :
    .own ws ∈ args.flatten ∨ ∀ w ∈ ws, Joined w := by
  have hnamed : (∀ n, callee ≠ .helper n) →
      .own ws ∈ Mention.own (calleeName v callee).toOption.toList :: args.flatten →
      .own ws ∈ args.flatten ∨ ∀ w ∈ ws, Joined w := by
    intro hhelper h
    rcases List.mem_cons.mp h with h | h
    · cases h
      refine .inr fun w hw ↦ ?_
      cases hname : calleeName v callee with
      | error err => simp [hname, Except.toOption] at hw
      | ok name =>
          obtain rfl : w = name := by simpa [hname, Except.toOption] using hw
          exact joined_calleeName hname hhelper
    · exact .inl h
  cases callee with
  | helper name =>
      rcases List.mem_cons.mp h with h | h
      · cases h
      · exact .inl h
  | texelFetch kind =>
      have hword : ∀ w, .own ws = Mention.own [w] → Joined w →
          .own ws ∈ args.flatten ∨ ∀ w ∈ ws, Joined w := by
        intro w hws hw
        cases hws
        exact .inr (by simpa using hw)
      rcases List.mem_cons.mp h with h | h
      · exact hword "texelFetch" h (by decide)
      rcases List.mem_append.mp h with h | h
      · split at h
        · exact hword "" (List.mem_singleton.mp h) (by decide)
        · exact .inl h
      rcases List.mem_cons.mp h with h | h
      · exact hword "0" h (by decide)
      split at h
      · exact hword "r" (List.mem_singleton.mp h) (by decide)
      · cases h
  | construct p => exact hnamed (by simp) h
  | intrinsic f => exact hnamed (by simp) h
  | texture kind => exact hnamed (by simp) h

/-! ### Words of expressions -/

/-- A word of the language itself has no underscore, unless it is a field. -/
theorem field_of_own {v : Version} {r : Expr} {ws : List String} {w : String}
    (hown : .own ws ∈ (vocabulary v).mentions r) (hw : w ∈ ws) (hsplit : ¬ Joined w) :
    ∃ a, r.Within (.field a w) := by
  induction r using Expr.induction_on_children with
  | step r ih =>
      have hchild : ∀ c ∈ r.children, .own ws ∈ (vocabulary v).mentions c →
          ∃ a, r.Within (.field a w) := by
        intro c hc hown
        obtain ⟨a, ha⟩ := ih c hc hown
        exact ⟨a, .child hc ha⟩
      have hargs : ∀ es, es = r.children →
          .own ws ∈ ((vocabulary v).mentionsEach es).flatten → ∃ a, r.Within (.field a w) := by
        rintro es rfl hown
        obtain ⟨c, hc, hown⟩ := (Code.Vocabulary.mem_mentionsEach _).mp hown
        exact hchild c hc hown
      cases r with
      | lit l =>
          cases List.mem_singleton.mp hown
          exact (hsplit (Code.joined_literal joined_primName l w hw)).elim
      | array t items =>
          rcases List.mem_cons.mp hown with hown | hown
          · cases hown
            cases List.mem_singleton.mp hw
            exact (hsplit (joined_typeText t)).elim
          · exact hargs items rfl hown
      | var h => cases List.mem_singleton.mp hown
      | unary op a => exact hchild a (List.mem_singleton_self a) hown
      | binary op a b =>
          rcases List.mem_append.mp hown with hown | hown
          · exact hchild a (by simp [Expr.children]) hown
          · exact hchild b (by simp [Expr.children]) hown
      | call callee args =>
          rcases joined_callMentions hown with hown | hjoined
          · exact hargs args rfl hown
          · exact (hsplit (hjoined w hw)).elim
      | swizzle a channels =>
          rcases List.mem_append.mp hown with hown | hown
          · exact hchild a (List.mem_singleton_self a) hown
          · cases List.mem_singleton.mp hown
            cases List.mem_singleton.mp hw
            exact (hsplit channels.joined_text).elim
      | field a name =>
          rcases List.mem_append.mp hown with hown | hown
          · exact hchild a (List.mem_singleton_self a) hown
          · cases List.mem_singleton.mp hown
            cases List.mem_singleton.mp hw
            exact ⟨a, .refl _⟩
      | index a i =>
          rcases List.mem_append.mp hown with hown | hown
          · exact hchild a (by simp [Expr.children]) hown
          · exact hchild i (by simp [Expr.children]) hown

theorem spell_of_name {c : Context} {h : Handle} {n : String} (houtput : h ≠ .output n)
    (hname : h.name? = some n) : spell c h = [n] := by
  cases h with
  | output m =>
      cases hname
      exact (houtput rfl).elim
  | builtin | constant | argument | localVar => cases hname
  | _ =>
      cases hname
      simp [spell, lowerHandle, Handle.text, Except.toOption]

/-- A word with an underscore in an expression is a chosen name, or else it is written for a
fragment output or for something that has no name. -/
theorem mem_words_lower {c : Context} {r : Expr} {x : Code.Expr} (h : lower c r = .ok x)
    {w : String} (hw : w ∈ x.words) (hsplit : ¬ Joined w) :
    r.Names w ∨ ∃ a, .read a ∈ Usage.Event.ofExpr r ∧ w ∈ spell c a ∧
      (a.name? = none ∨ ∃ n, a = .output n) := by
  rw [words_lower c r h] at hw
  obtain ⟨a, ha, hw⟩ := List.mem_flatMap.mp hw
  have hevent : ∀ ev ∈ a.event?, ev ∈ Usage.Event.ofExpr r := fun ev ↦
    (vocabulary c.version).event_of_mentions r ha
  cases a with
  | handle a =>
      have hread : .read a ∈ Usage.Event.ofExpr r := hevent _ rfl
      cases hname : a.name? with
      | none => exact .inr ⟨a, hread, hw, .inl hname⟩
      | some n =>
          by_cases houtput : a = .output n
          · exact .inr ⟨a, hread, hw, .inr ⟨n, houtput⟩⟩
          · have hword : w ∈ [n] := spell_of_name houtput hname ▸ hw
            cases List.mem_singleton.mp hword
            exact .inl (.handle hread houtput hname)
  | helper name =>
      cases List.mem_singleton.mp hw
      exact .inl (.helper (hevent _ rfl))
  | own ws =>
      obtain ⟨a, hfield⟩ := field_of_own ha hw hsplit
      exact .inl (.field hfield)

/-- Every expression in a shader is one of recorded code, or it takes the value that the entry
point returns. -/
theorem exists_writes_of_parts {e : Emission} {v : Version} {s : Shader} (h : Parts e v s)
    {x : Code.Expr} (hx : x ∈ s.exprs) :
    (∃ inHelper r, e.Writes inHelper r ∧ lower (context e v) r = .ok x) ∨
      lowerHandle (context e v) (.builtin e.stage.result) = .ok x := by
  rcases List.mem_append.mp hx with hx | hx
  · refine .inl ?_
    rcases List.mem_append.mp hx with hx | hx
    · obtain ⟨constant, hconstant, rfl⟩ := List.mem_map.mp hx
      exact ⟨false, Emission.exists_writes_constant h.constants hconstant⟩
    · obtain ⟨f, hf, hx⟩ := List.mem_flatMap.mp hx
      exact ⟨true, Emission.exists_writes_function (leave_helper _) h.functions hf hx⟩
  · rcases Code.Target.origin_block (leave_entry _ _) e.body h.main x hx with
      ⟨r, hr, hx⟩ | ⟨_, _, _, hx⟩
    · exact .inl ⟨false, r, .body hr, hx⟩
    · exact .inr hx

end Glsl

end Shading
