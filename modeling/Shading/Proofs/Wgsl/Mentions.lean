import Shading.Proofs.Code.Mentions
import Shading.Wgsl.Lower

/-!
# Mentions in WGSL

What the text of a WGSL expression mentions.  Calls that are written as operators mention their
operands only, and a texture access mentions its texture twice.
-/

namespace Shading.Wgsl

open Code (Mention spelled)

/-- The words that a handle is written with. -/
def spell (place : Place) (h : Handle) : List String :=
  ((lowerHandle place h).toOption.map Code.Expr.words).getD []

theorem words_lowerHandle {place : Place} {h : Handle} {x : Code.Expr}
    (hx : lowerHandle place h = .ok x) : x.words = spell place h := by
  rw [spell, hx]
  rfl

/-- A texture access mentions its texture twice, and the layer of an array comes from the same
coordinates. -/
def sampleMentions (place : Place) (kind : SamplerKind) (texture coords : List Mention) :
    List Mention :=
  let position := match kind with
    | .planeArray => coords ++ .own ["xy", "i32", "round"] :: coords ++ [.own ["z"]]
    | _ => coords
  let args := texture ++ texture ++ .own ["_sampler"] :: position
  if place.stage? = some .vertex then .own ["textureSampleLevel"] :: args ++ [.own ["0.0"]]
  else .own ["textureSample"] :: args

/-- What a call mentions, given what its arguments do. -/
def callMentions (place : Place) (callee : Callee) (args : List (List Mention)) : List Mention :=
  match callee with
  | .construct p => .own [primName p] :: args.flatten
  | .intrinsic f =>
    match spelling f, args with
    | .call name, _ => .own [name] :: args.flatten
    | .binary _, _ => args.flatten
    | .not, a :: _ => a
    | .not, [] => [.own [""]]
  | .texture kind =>
    match args with
    | [texture, coords] => sampleMentions place kind texture coords
    | _ => []
  | .texelFetch _ =>
    .own ["textureLoad"] :: (if args.isEmpty then [.own [""]] else args.flatten) ++ [.own ["0"]]
  | .helper name => .helper name :: args.flatten

theorem mem_sampleMentions {place : Place} {kind : SamplerKind} {texture coords : List Mention}
    {a : Mention} (ha : a ∈ sampleMentions place kind texture coords) :
    (∃ words, a = .own words) ∨ a ∈ texture ∨ a ∈ coords := by
  unfold sampleMentions at ha
  cases kind <;> grind

/-- A call mentions its callee, what its arguments do, and words of its own. -/
theorem mem_callMentions {place : Place} {callee : Callee} {args : List (List Mention)}
    {a : Mention} (ha : a ∈ callMentions place callee args) :
    (∃ words, a = .own words) ∨ (∃ name, callee = .helper name ∧ a = .helper name) ∨
      a ∈ args.flatten := by
  cases callee with
  | construct p =>
      rcases List.mem_cons.mp ha with rfl | ha
      · exact .inl ⟨_, rfl⟩
      · exact .inr (.inr ha)
  | intrinsic f =>
      unfold callMentions at ha
      dsimp only at ha
      cases hspelling : spelling f with
      | call name =>
          rw [hspelling] at ha
          rcases List.mem_cons.mp ha with rfl | ha
          · exact .inl ⟨_, rfl⟩
          · exact .inr (.inr ha)
      | binary op =>
          rw [hspelling] at ha
          exact .inr (.inr ha)
      | not =>
          rw [hspelling] at ha
          cases args with
          | nil => exact .inl ⟨_, List.mem_singleton.mp ha⟩
          | cons first rest => exact .inr (.inr (List.mem_append_left _ ha))
  | texture kind =>
      match args, ha with
      | [texture, coords], ha =>
          rcases mem_sampleMentions ha with hown | htexture | hcoords
          · exact .inl hown
          · exact .inr (.inr (by simp [htexture]))
          · exact .inr (.inr (by simp [hcoords]))
      | [], ha => cases ha
      | [_], ha => cases ha
      | _ :: _ :: _ :: _, ha => cases ha
  | texelFetch kind =>
      have ha : a ∈ .own ["textureLoad"] ::
          (if args.isEmpty then [.own [""]] else args.flatten) ++ [.own ["0"]] := ha
      grind
  | helper name =>
      rcases List.mem_cons.mp ha with rfl | ha
      · exact .inr (.inl ⟨name, rfl, rfl⟩)
      · exact .inr (.inr ha)

def vocabulary (place : Place) : Code.Vocabulary where
  literal l := (Code.literal primName l).words
  type t := typeText (.ofTy t)
  call := callMentions place
  mem_call := mem_callMentions

/-- The words of an outcome, if there is one, are those of some mentions. -/
def Spells (place : Place) (outcome : Except Error Code.Expr) (ms : List Mention) : Prop :=
  ∀ x, outcome = .ok x → x.words = spelled (spell place) ms

theorem words_mapM {place : Place} {args : List (Except Error Code.Expr)}
    {mss : List (List Mention)} (hargs : List.Forall₂ (Spells place) args mss)
    {xs : List Code.Expr} (h : args.mapM id = .ok xs) : xs.isEmpty = mss.isEmpty ∧
      xs.flatMap Code.Expr.words = spelled (spell place) mss.flatten := by
  induction hargs generalizing xs with
  | nil =>
      cases h
      exact ⟨rfl, rfl⟩
  | cons harg _ ih =>
      rw [List.mapM_cons] at h
      obtain ⟨x, hx, h⟩ := bind_eq_ok.mp h
      obtain ⟨xs', hxs, h⟩ := bind_eq_ok.mp h
      cases h
      simp [harg x hx, (ih hxs).2]

theorem words_sample (place : Place) (kind : SamplerKind) {texture coords : Code.Expr}
    {ts cs : List Mention} (htexture : texture.words = spelled (spell place) ts)
    (hcoords : coords.words = spelled (spell place) cs) :
    (sample place kind texture coords).words =
      spelled (spell place) (sampleMentions place kind ts cs) := by
  unfold sample sampleMentions
  cases kind <;> by_cases hstage : place.stage? = some .vertex <;> simp [hstage, htexture, hcoords]

theorem words_lowerCall {place : Place} {callee : Callee}
    {args : List (Except Error Code.Expr)} {mss : List (List Mention)}
    (hargs : List.Forall₂ (Spells place) args mss) {x : Code.Expr}
    (h : lowerCall place callee args = .ok x) :
    x.words = spelled (spell place) (callMentions place callee mss) := by
  cases callee with
  | construct p =>
      obtain ⟨xs, hxs, h⟩ := bind_eq_ok.mp h
      cases h
      simp [callMentions, words_mapM hargs hxs]
  | intrinsic f =>
      unfold lowerCall at h
      unfold callMentions
      dsimp only at h ⊢
      cases hspelling : spelling f with
      | call name =>
          rw [hspelling] at h
          obtain ⟨xs, hxs, h⟩ := bind_eq_ok.mp h
          cases h
          simp [words_mapM hargs hxs]
      | binary op =>
          rw [hspelling] at h
          match args, mss, hargs, h with
          | [], _, _, h => cases h
          | [_], _, _, h => cases h
          | [a, b], _, .cons ha (.cons hb .nil), h =>
              obtain ⟨y, hy, h⟩ := bind_eq_ok.mp h
              obtain ⟨z, hz, h⟩ := bind_eq_ok.mp h
              cases h
              simp [ha y hy, hb z hz]
          | _ :: _ :: _ :: _, _, _, h => cases h
      | not =>
          rw [hspelling] at h
          match args, mss, hargs, h with
          | [], _, .nil, h =>
              cases h
              simp [Code.Expr.blank]
          | a :: _, _, .cons ha _, h =>
              obtain ⟨y, hy, h⟩ := bind_eq_ok.mp h
              cases h
              simp [ha y hy]
  | texture kind =>
      unfold lowerCall at h
      dsimp only at h
      split at h
      · obtain ⟨texture, htexture, h⟩ := bind_eq_ok.mp h
        obtain ⟨coords, hcoords, h⟩ := bind_eq_ok.mp h
        cases h
        obtain _ | ⟨ht, _ | ⟨hc, _ | _⟩⟩ := hargs
        exact words_sample place kind (ht _ htexture) (hc _ hcoords)
      · cases h
  | texelFetch kind =>
      obtain ⟨xs, hxs, h⟩ := bind_eq_ok.mp h
      cases h
      obtain ⟨hempty, hwords⟩ := words_mapM hargs hxs
      cases hmss : mss.isEmpty <;> simp_all [callMentions, Code.Expr.blank]
  | helper name =>
      obtain ⟨xs, hxs, h⟩ := bind_eq_ok.mp h
      cases h
      simp [callMentions, words_mapM hargs hxs]

mutual

/-- The words of an expression are those of its mentions. -/
theorem words_lower (place : Place) : ∀ e : Expr,
    Spells place (lower place e) ((vocabulary place).mentions e)
  | .lit l => by
    intro x h
    cases h
    simp [Code.Vocabulary.mentions, vocabulary]
  | .array t items => by
    intro x h
    obtain ⟨xs, hxs, h⟩ := bind_eq_ok.mp h
    cases h
    simp only [Code.Vocabulary.mentions, Code.Expr.words_call, Code.spelled_own,
      (words_mapM (words_lowerEach place items) hxs).2]
    rfl
  | .var h => by
    intro x hx
    simp [Code.Vocabulary.mentions, words_lowerHandle hx]
  | .unary op a => by
    intro x h
    obtain ⟨y, hy, h⟩ := bind_eq_ok.mp h
    cases h
    simp [Code.Vocabulary.mentions, words_lower place a y hy]
  | .binary op a b => by
    intro x h
    obtain ⟨y, hy, h⟩ := bind_eq_ok.mp h
    obtain ⟨z, hz, h⟩ := bind_eq_ok.mp h
    cases h
    simp [Code.Vocabulary.mentions, words_lower place a y hy, words_lower place b z hz]
  | .call callee args => by
    intro x h
    exact words_lowerCall (words_lowerEach place args) h
  | .swizzle a channels => by
    intro x h
    obtain ⟨y, hy, h⟩ := bind_eq_ok.mp h
    have hwords := words_lower place a y hy
    cases h
    split <;> simp [Code.Vocabulary.mentions, hwords]
  | .field a name => by
    intro x h
    obtain ⟨y, hy, h⟩ := bind_eq_ok.mp h
    cases h
    simp [Code.Vocabulary.mentions, words_lower place a y hy]
  | .index a i => by
    intro x h
    obtain ⟨y, hy, h⟩ := bind_eq_ok.mp h
    obtain ⟨z, hz, h⟩ := bind_eq_ok.mp h
    cases h
    simp [Code.Vocabulary.mentions, words_lower place a y hy, words_lower place i z hz]

theorem words_lowerEach (place : Place) : ∀ es : List Expr,
    List.Forall₂ (Spells place) (lowerEach place es) ((vocabulary place).mentionsEach es)
  | [] => .nil
  | e :: es => .cons (words_lower place e) (words_lowerEach place es)

end

end Shading.Wgsl
