import Mathlib.Data.List.Induction
import Mathlib.Data.Rat.Init
import Shading.Proofs.Access
import Shading.Proofs.Reading.Targets

/-!
# Channels of the window coordinate

The window coordinate grows upwards in a recorded expression and downwards in WGSL, so its vertical
channel changes sign.  A channel can be selected through any number of swizzles: `xy.y` and
`zyx.y` are the vertical channel as well.  The sign is changed where `y` is selected from the
coordinate itself, and nowhere else.

Main statement: a channel that is reached through a chain of swizzles is negated exactly if the
chain is `y` alone.  It has the value that it should have, unless it is the vertical channel and the
chain is longer than that.
-/

namespace Shading.Reading

/-! ### Selections -/

/-- Where a channel stands in a vector. -/
def position : Channel → Nat
  | .x => 0
  | .y => 1
  | .z => 2
  | .w => 3

/-- The parts of a vector that channels select; a scalar has none. -/
def select? {α : Type} (v : List α) (channels : List Channel) : Option (List α) :=
  if 2 ≤ v.length then channels.mapM fun c ↦ v[position c]? else none

/-- The channels of a vector of four. -/
def whole : List Channel :=
  [.x, .y, .z, .w]

/-- The channels of a vector of four that a chain of swizzles ends in.  Every swizzle selects from
what the ones before it have left, and has to find its channels there. -/
def trace? (chain : List Swizzle) : Option (List Channel) :=
  chain.foldlM (fun cs s ↦ select? cs s.channels.toList) whole

/-- The window coordinate seen through a chain of swizzles. -/
def fragCoord (chain : List Swizzle) : Expr :=
  chain.foldl .swizzle (.var (.builtin .fragCoord))

theorem fragCoord_concat (chain : List Swizzle) (s : Swizzle) :
    fragCoord (chain ++ [s]) = .swizzle (fragCoord chain) s := by
  simp [fragCoord]

theorem trace?_concat (chain : List Swizzle) (s : Swizzle) :
    trace? (chain ++ [s]) = (trace? chain).bind fun cs ↦ select? cs s.channels.toList := by
  rw [trace?, List.foldlM_append]
  simp [trace?]

theorem select?_whole (channels : List Channel) : select? whole channels = some channels := by
  have hget : ∀ c : Channel, whole[position c]? = some c := by
    intro c
    cases c <;> rfl
  rw [select?, if_pos (by decide), mapM_eq_some_self hget]

theorem two_le_of_select? {α : Type} {v u : List α} {channels : List Channel}
    (h : select? v channels = some u) : 2 ≤ v.length := by
  by_contra hv
  rw [select?, if_neg hv] at h
  cases h

/-- Selecting goes along with a change of all parts. -/
theorem select?_map {α β : Type} (f : α → β) (v : List α) (channels : List Channel) :
    select? (v.map f) channels = (select? v channels).map (List.map f) := by
  rw [select?, select?, List.length_map]
  split
  · induction channels with
    | nil => rfl
    | cons c channels ih =>
      rw [List.mapM_cons, List.mapM_cons, ih, List.getElem?_map]
      cases v[position c]? with
      | none => rfl
      | some a =>
        cases channels.mapM fun c ↦ v[position c]? with
        | none => rfl
        | some as => rfl
  · rfl

/-! ### Values of accesses -/

/-- The value of an access to the window coordinate, part by part. -/
def Tree.parts? (window : Channel → ℚ) : Tree → Option (List ℚ)
  | word "frag_coord" => some (whole.map window)
  | member (word "input") "frag_coord" => some (whole.map window)
  | member t name => do
    select? (← t.parts? window) (← name.toList.mapM Channel.ofLetter?)
  | unary .neg t => (t.parts? window).map (List.map Neg.neg)
  | _ => none

/-- A coordinate that grows upwards, from one that grows downwards. -/
def upright (window : Channel → ℚ) (c : Channel) : ℚ :=
  if c = .y then -window c else window c

theorem mapM_ofLetter?_text (s : Swizzle) :
    s.text.toList.mapM Channel.ofLetter? = some s.channels.toList := by
  have hletter : ∀ c : Channel, Channel.ofLetter? c.letter = some c := by
    intro c
    cases c <;> rfl
  rw [Swizzle.text, String.toList_ofList, List.mapM_map]
  exact mapM_eq_some_self hletter s.channels.toList

/-! ### Accesses -/

variable (place : Wgsl.Place)

/-- The access to the window coordinate through a chain of swizzles. -/
def access (chain : List Swizzle) : Code.Expr :=
  chain.foldl (fun a s ↦ .member a s.text) (Wgsl.fragmentInput place "frag_coord")

/-- What an access reads as. -/
def accessTree (chain : List Swizzle) : Tree :=
  chain.foldl (fun t s ↦ .member t s.text) (fieldOf (inputStruct place) "frag_coord")

theorem access_concat (chain : List Swizzle) (s : Swizzle) :
    access place (chain ++ [s]) = .member (access place chain) s.text := by
  simp [access]

theorem accessTree_concat (chain : List Swizzle) (s : Swizzle) :
    accessTree place (chain ++ [s]) = .member (accessTree place chain) s.text := by
  simp [accessTree]

theorem written_access (chain : List Swizzle) :
    Written True (access place chain) (accessTree place chain) := by
  induction chain using List.reverseRecOn with
  | nil => exact written_fragmentInput place fun _ ↦ by decide
  | append_singleton chain s ih =>
    rw [access_concat, accessTree_concat, text_swizzle]
    exact ih.member fun _ ↦ isName_swizzleName s

theorem regroup_accessTree (chain : List Swizzle) :
    (accessTree place chain).regroup = accessTree place chain := by
  induction chain using List.reverseRecOn with
  | nil => rcases place with _ | ⟨_ | ⟨_ | _, _, _⟩⟩ | _ <;> rfl
  | append_singleton chain s ih => rw [accessTree_concat, Tree.regroup, ih]

theorem grade_access (chain : List Swizzle) : (access place chain).grade = .atomic := by
  induction chain using List.reverseRecOn with
  | nil => rcases place with _ | ⟨_ | ⟨_ | _, _, _⟩⟩ | _ <;> rfl
  | append_singleton chain s ih => rw [access_concat]; rfl

theorem text_neg {a : Code.Expr} (h : a.grade = .atomic) :
    (Code.Expr.unary .neg a).text = "-" ++ a.text := by
  simp [Code.Expr.text, Code.Expr.tokens, Code.Expr.wrap, h, Code.Token.text, UnaryOp.symbol]

theorem text_access (chain : List Swizzle) :
    (access place chain).text = (Wgsl.fragmentInput place "frag_coord").text ++
      String.join (chain.map fun s ↦ "." ++ s.text) := by
  induction chain using List.reverseRecOn with
  | nil => simp [access]
  | append_singleton chain s ih =>
    rw [access_concat, Code.Expr.text_member (grade_access place chain), ih]
    simp [String.join_append, String.append_assoc]

theorem exists_accessTree_eq_member {chain : List Swizzle} (h : chain ≠ []) :
    ∃ object name, accessTree place chain = .member object name := by
  rw [← List.dropLast_concat_getLast h, accessTree_concat]
  exact ⟨_, _, rfl⟩

theorem accessTree_ne_input (chain : List Swizzle) : accessTree place chain ≠ .word "input" := by
  induction chain using List.reverseRecOn with
  | nil => rcases place with _ | ⟨_ | ⟨_ | _, _, _⟩⟩ | _ <;> simp [accessTree, fieldOf, inputStruct]
  | append_singleton chain s =>
    rw [accessTree_concat]
    exact Tree.noConfusion

/-- An access has the parts that the chain ends in. -/
theorem parts?_accessTree (window : Channel → ℚ) (chain : List Swizzle) :
    (accessTree place chain).parts? window = (trace? chain).map (List.map window) := by
  induction chain using List.reverseRecOn with
  | nil => rcases place with _ | ⟨_ | ⟨_ | _, _, _⟩⟩ | _ <;> rfl
  | append_singleton chain s ih =>
    rw [accessTree_concat, Tree.parts?, ih, mapM_ofLetter?_text, trace?_concat]
    · cases htrace : trace? chain with
      | none => rfl
      | some cs => exact select?_map window cs s.channels.toList
    · intro hinput
      exact (accessTree_ne_input place chain hinput).elim

/-! ### The sign -/

theorem isFragCoordY_fragCoord (chain : List Swizzle) (s : Swizzle) :
    Wgsl.isFragCoordY (fragCoord chain) s = true ↔ chain = [] ∧ s.channels.toList = [.y] := by
  induction chain using List.reverseRecOn with
  | nil => simp [fragCoord, Wgsl.isFragCoordY]
  | append_singleton chain s ih => simp [fragCoord_concat, Wgsl.isFragCoordY]

variable {place}

theorem lower_fragCoord_concat {chain : List Swizzle} {code : Code.Expr}
    (h : Wgsl.lower place (fragCoord chain) = .ok code) (s : Swizzle) :
    Wgsl.lower place (fragCoord (chain ++ [s])) =
      .ok (if chain = [] ∧ s.channels.toList = [.y] then .unary .neg (.member code s.text)
        else .member code s.text) := by
  rw [fragCoord_concat, Wgsl.lower, h]
  simp only [isFragCoordY_fragCoord]
  rfl

/-- Nothing is negated on the way to a vector. -/
theorem lower_fragCoord (hplace : OutsideHelpers place) {chain : List Swizzle} {cs : List Channel}
    (htrace : trace? chain = some cs) (hcs : 2 ≤ cs.length) :
    Wgsl.lower place (fragCoord chain) = .ok (access place chain) := by
  induction chain using List.reverseRecOn generalizing cs with
  | nil =>
    rw [fragCoord, List.foldl_nil, Wgsl.lower]
    cases place with
    | helper stage => exact (hplace stage rfl).elim
    | _ => rfl
  | append_singleton chain s ih =>
    rw [trace?_concat] at htrace
    obtain ⟨front, hfront, hselect⟩ := Option.bind_eq_some_iff.mp htrace
    have hy : ¬(chain = [] ∧ s.channels.toList = [.y]) := by
      rintro ⟨rfl, hs⟩
      obtain rfl : whole = front := Option.some.inj hfront
      rw [hs, select?_whole] at hselect
      cases hselect
      exact absurd hcs (by decide)
    rw [lower_fragCoord_concat (ih hfront (two_le_of_select? hselect)), if_neg hy, access_concat]

/-- A single channel is negated if it is selected as `y` from the coordinate itself. -/
theorem lower_fragCoord_channel (hplace : OutsideHelpers place) {chain : List Swizzle} {c : Channel}
    (htrace : trace? chain = some [c]) :
    Wgsl.lower place (fragCoord chain) =
      .ok (if c = .y ∧ chain.length = 1 then .unary .neg (access place chain)
        else access place chain) := by
  induction chain using List.reverseRecOn with
  | nil => cases htrace
  | append_singleton chain s =>
    rw [trace?_concat] at htrace
    obtain ⟨front, hfront, hselect⟩ := Option.bind_eq_some_iff.mp htrace
    have hlower := lower_fragCoord hplace hfront (two_le_of_select? hselect)
    have hy : (chain = [] ∧ s.channels.toList = [.y]) ↔ c = .y ∧ (chain ++ [s]).length = 1 := by
      have hchain : (chain ++ [s]).length = 1 ↔ chain = [] := by simp
      rw [hchain, and_comm]
      refine and_congr_left fun hnil ↦ ?_
      subst hnil
      obtain rfl : whole = front := Option.some.inj hfront
      rw [select?_whole, Option.some.injEq] at hselect
      simp [hselect]
    simp only [lower_fragCoord_concat hlower, hy, access_concat]

/-! ### Channels -/

/-- The direction makes no difference to any channel but the vertical one. -/
theorem eq_upright_iff (c : Channel) : (∀ window, window c = upright window c) ↔ c ≠ .y := by
  constructor
  · rintro h rfl
    exact absurd (h fun _ ↦ 1) (by decide)
  · intro hc window
    rw [upright, if_neg hc]

/-- Outside helpers a channel that a chain of swizzles ends in is written as an access, which is
negated exactly if it is `y` of the coordinate itself.  So the vertical channel keeps the wrong sign
if it is reached in several steps, and every other value is right. -/
theorem fragCoord_channel_sign (hplace : ∀ stage, place ≠ .helper stage) {chain : List Swizzle}
    {c : Channel} (htrace : trace? chain = some [c]) :
    ∃ code tree, Wgsl.lower place (fragCoord chain) = .ok code ∧
      code.text = (if c = .y ∧ chain.length = 1 then "-" else "") ++
        (Wgsl.fragmentInput place "frag_coord").text ++
        String.join (chain.map fun s ↦ "." ++ s.text) ∧
      read code.text = some (lexemes code.tokens) ∧ parse (lexemes code.tokens) = some tree ∧
      ((∃ object name, tree = .unary .neg (.member object name)) ↔ c = .y ∧ chain.length = 1) ∧
      (∀ window, tree.parts? window =
        some [if chain.length = 1 then upright window c else window c]) ∧
      ((∀ window, tree.parts? window = some [upright window c]) ↔ (c = .y → chain.length = 1)) := by
  have hlower := lower_fragCoord_channel hplace htrace
  have hne : chain ≠ [] := by
    rintro rfl
    cases htrace
  obtain ⟨object, name, hmember⟩ := exists_accessTree_eq_member place hne
  have hparts : ∀ window, (accessTree place chain).parts? window = some [window c] := by
    intro window
    rw [parts?_accessTree, htrace]
    rfl
  by_cases hy : c = .y ∧ chain.length = 1
  · have hup : ∀ window, (Tree.unary .neg (accessTree place chain)).parts? window =
        some [upright window c] := by
      intro window
      rw [Tree.parts?, hparts, upright, if_pos hy.1]
      rfl
    rw [if_pos hy] at hlower
    have hwritten := (written_access place chain).unary .neg
    refine ⟨_, .unary .neg (accessTree place chain), hlower, ?_, hwritten.read trivial, ?_, ?_, ?_,
      ?_⟩
    · rw [text_neg (grade_access place chain), text_access, if_pos hy, String.append_assoc]
    · rw [← regroup_accessTree, ← Tree.regroup]
      exact hwritten.parse
    · exact ⟨fun _ ↦ hy, fun _ ↦ ⟨object, name, by rw [hmember]⟩⟩
    · simpa only [hy.2, if_true] using hup
    · exact ⟨fun _ _ ↦ hy.2, fun _ ↦ hup⟩
  · rw [if_neg hy] at hlower
    have hwritten := written_access place chain
    refine ⟨_, accessTree place chain, hlower, ?_, hwritten.read trivial, ?_, ?_, ?_, ?_⟩
    · rw [text_access, if_neg hy, String.empty_append]
    · rw [← regroup_accessTree]
      exact hwritten.parse
    · refine ⟨?_, fun h ↦ (hy h).elim⟩
      rintro ⟨object', name', htree⟩
      rw [hmember] at htree
      cases htree
    · intro window
      rw [hparts]
      split
      · next hone => rw [upright, if_neg fun hc ↦ hy ⟨hc, hone⟩]
      · rfl
    · have hvalue : (∀ window, (accessTree place chain).parts? window = some [upright window c]) ↔
          c ≠ .y := by
        simp only [hparts, Option.some.injEq, List.cons.injEq, and_true]
        exact eq_upright_iff c
      rw [hvalue]
      exact ⟨fun hc h ↦ (hc h).elim, fun himp hc ↦ hy ⟨hc, himp hc⟩⟩

/-- The first two channels. -/
def plane : Swizzle :=
  ⟨.two, #v[.x, .y]⟩

/-- The vertical channel. -/
def height : Swizzle :=
  ⟨.one, #v[.y]⟩

theorem fragCoord_channel_sign_plane_height :
    trace? [plane, height] = some [.y] ∧
    ∃ code tree, Wgsl.lower (.entry (.fragment true false "color")) (fragCoord [plane, height]) =
        .ok code ∧
      code.text = "input.frag_coord.xy.y" ∧ (read code.text).bind parse = some tree ∧
      ∀ window, tree.parts? window = some [window .y] := by
  have htrace : trace? [plane, height] = some [.y] := by decide
  obtain ⟨code, tree, hlower, htext, hread, hparse, -, hparts, -⟩ :=
    @fragCoord_channel_sign (.entry (.fragment true false "color"))
      (fun _ ↦ Wgsl.Place.noConfusion) _ _ htrace
  refine ⟨htrace, code, tree, hlower, htext.trans (by decide), ?_, hparts⟩
  rw [hread]
  exact hparse

/-- Both chains end in the vertical channel, and only one access is negated. -/
theorem fragCoord_height_texts :
    trace? [height] = some [.y] ∧ trace? [plane, height] = some [.y] ∧
    (Wgsl.lower .standalone (fragCoord [height])).toOption.map Code.Expr.text =
      some "-frag_coord.y" ∧
    (Wgsl.lower .standalone (fragCoord [plane, height])).toOption.map Code.Expr.text =
      some "frag_coord.xy.y" := by
  decide +kernel

end Shading.Reading
