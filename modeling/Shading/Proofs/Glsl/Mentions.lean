import Shading.Glsl.Lower
import Shading.Proofs.Code.Mentions

/-!
# Mentions in GLSL

What the text of a GLSL expression mentions.
-/

namespace Shading.Glsl

open Code (Mention spelled)

/-- The words that a handle is written with. -/
def spell (c : Context) (h : Handle) : List String :=
  ((lowerHandle c h).toOption.map Code.Expr.words).getD []

theorem words_lowerHandle {c : Context} {h : Handle} {x : Code.Expr}
    (hx : lowerHandle c h = .ok x) : x.words = spell c h := by
  rw [spell, hx]
  rfl

/-- What a call mentions, given what its arguments do. -/
def callMentions (v : Version) (callee : Callee) (args : List (List Mention)) : List Mention :=
  match callee with
  | .helper name => .helper name :: args.flatten
  | .texelFetch kind =>
    .own ["texelFetch"] :: (if args.isEmpty then [.own [""]] else args.flatten) ++
      .own ["0"] :: if kind = .depth then [.own ["r"]] else []
  | callee => .own (calleeName v callee).toOption.toList :: args.flatten

theorem mem_callMentions {v : Version} {callee : Callee} {args : List (List Mention)} {a : Mention}
    (ha : a ∈ callMentions v callee args) : (∃ words, a = .own words) ∨
      (∃ name, callee = .helper name ∧ a = .helper name) ∨ a ∈ args.flatten := by
  cases callee with
  | helper name =>
      rcases List.mem_cons.mp ha with rfl | ha
      · exact .inr (.inl ⟨name, rfl, rfl⟩)
      · exact .inr (.inr ha)
  | texelFetch kind =>
      rw [callMentions] at ha
      grind
  | _ =>
      rcases List.mem_cons.mp ha with rfl | ha
      · exact .inl ⟨_, rfl⟩
      · exact .inr (.inr ha)

def vocabulary (v : Version) : Code.Vocabulary where
  literal l := (Code.literal primName l).words
  type t := typeText (.ofTy t)
  call := callMentions v
  mem_call := mem_callMentions

theorem eq_ofTy_of_typeName {v : Version} {t : Ty} {type : Code.TypeName}
    (h : typeName v t = .ok type) : type = .ofTy t := by
  obtain ⟨name, -, h⟩ := bind_eq_ok.mp h
  cases h
  rfl

theorem words_lowerLiteral {v : Version} {l : Literal} {x : Code.Expr}
    (h : lowerLiteral v l = .ok x) : x = Code.literal primName l := by
  unfold lowerLiteral at h
  split at h
  · cases h
  · cases h
  · cases h
    rfl

theorem words_texelFetch (v : Version) (kind : SamplerKind) {spell : Handle → List String}
    {args : List Code.Expr} {mss : List (List Mention)} (hempty : args.isEmpty = mss.isEmpty)
    (hwords : args.flatMap Code.Expr.words = spelled spell mss.flatten) :
    (texelFetch kind args).words = spelled spell (callMentions v (.texelFetch kind) mss) := by
  unfold texelFetch callMentions
  rw [hempty]
  cases mss.isEmpty <;> by_cases hkind : kind = .depth <;>
    simp [hkind, hwords, Code.Expr.blank]

/-- A call that is written with the name of its callee. -/
theorem words_callMentions {v : Version} {callee : Callee} {name : String}
    (h : calleeName v callee = .ok name) (hcallee : ∀ kind, callee ≠ .texelFetch kind)
    (spell : Handle → List String) (args : List (List Mention)) :
    spelled spell (callMentions v callee args) = name :: spelled spell args.flatten := by
  cases callee with
  | helper n =>
      cases h
      rfl
  | texelFetch kind => exact (hcallee kind rfl).elim
  | _ =>
      change spelled spell (.own (calleeName v _).toOption.toList :: args.flatten) = _
      rw [h]
      rfl

mutual

/-- The words of an expression are those of its mentions. -/
theorem words_lower (c : Context) : ∀ (e : Expr) {x : Code.Expr}, lower c e = .ok x →
    x.words = spelled (spell c) ((vocabulary c.version).mentions e)
  | .lit l, x, h => by
    rw [lower] at h
    simp [Code.Vocabulary.mentions, vocabulary, words_lowerLiteral h]
  | .array t items, x, h => by
    rw [lower] at h
    obtain ⟨type, htype, h⟩ := bind_eq_ok.mp h
    obtain ⟨xs, hxs, h⟩ := bind_eq_ok.mp h
    cases h
    simp only [Code.Vocabulary.mentions, Code.Expr.words_call, Code.spelled_own,
      (words_lowerAll c items hxs).2, eq_ofTy_of_typeName htype]
    rfl
  | .var h, x, hx => by
    rw [lower] at hx
    simp [Code.Vocabulary.mentions, words_lowerHandle hx]
  | .unary op a, x, h => by
    rw [lower] at h
    obtain ⟨y, hy, h⟩ := bind_eq_ok.mp h
    cases h
    simp [Code.Vocabulary.mentions, words_lower c a hy]
  | .binary op a b, x, h => by
    rw [lower] at h
    obtain ⟨y, hy, h⟩ := bind_eq_ok.mp h
    obtain ⟨z, hz, h⟩ := bind_eq_ok.mp h
    cases h
    simp [Code.Vocabulary.mentions, words_lower c a hy, words_lower c b hz]
  | .call callee args, x, h => by
    have hargs : ∀ {xs : List Code.Expr}, lowerAll c args = .ok xs → _ := words_lowerAll c args
    cases callee with
    | texelFetch kind =>
        rw [lower] at h
        split at h
        · cases h
        · obtain ⟨xs, hxs, h⟩ := bind_eq_ok.mp h
          cases h
          exact words_texelFetch c.version kind (hargs hxs).1 (hargs hxs).2
    | _ =>
        rw [lower] at h
        obtain ⟨name, hname, h⟩ := bind_eq_ok.mp h
        obtain ⟨xs, hxs, h⟩ := bind_eq_ok.mp h
        cases h
        rw [Code.Expr.words_call, (hargs hxs).2]
        exact (words_callMentions hname (by simp) _ _).symm
        all_goals
          intro kind hkind
          cases hkind
  | .swizzle a channels, x, h => by
    rw [lower] at h
    obtain ⟨y, hy, h⟩ := bind_eq_ok.mp h
    cases h
    simp [Code.Vocabulary.mentions, words_lower c a hy]
  | .field a name, x, h => by
    rw [lower] at h
    obtain ⟨y, hy, h⟩ := bind_eq_ok.mp h
    cases h
    simp [Code.Vocabulary.mentions, words_lower c a hy]
  | .index a i, x, h => by
    rw [lower] at h
    obtain ⟨y, hy, h⟩ := bind_eq_ok.mp h
    obtain ⟨z, hz, h⟩ := bind_eq_ok.mp h
    cases h
    simp [Code.Vocabulary.mentions, words_lower c a hy, words_lower c i hz]

theorem words_lowerAll (c : Context) : ∀ (es : List Expr) {xs : List Code.Expr},
    lowerAll c es = .ok xs → xs.isEmpty = ((vocabulary c.version).mentionsEach es).isEmpty ∧
      xs.flatMap Code.Expr.words =
        spelled (spell c) ((vocabulary c.version).mentionsEach es).flatten
  | [], xs, h => by
    cases h
    exact ⟨rfl, rfl⟩
  | e :: es, xs, h => by
    rw [lowerAll] at h
    obtain ⟨y, hy, h⟩ := bind_eq_ok.mp h
    obtain ⟨ys, hys, h⟩ := bind_eq_ok.mp h
    cases h
    simp [Code.Vocabulary.mentionsEach, words_lower c e hy, words_lowerAll c es hys]

end

end Shading.Glsl
