import Shading.Proofs.Usage.Expansion

/-!
# Recursion

Helpers must not call themselves, neither directly nor through other helpers or through constants.
The analysis of a body whose code is declared and allowed in the stage fails exactly if some helper
that it reaches does so.  Otherwise every helper and every constant comes after all it depends on.
-/

namespace Shading

/-- What occurs before the first occurrence of a value stands before it. -/
theorem eraseDups_eq_append_cons {α : Type} [DecidableEq α] {xs l l' : List α} {a : α}
    (h : xs.eraseDups = l ++ a :: l') : ∃ m m', xs = m ++ a :: m' ∧ ∀ b ∈ m, b ∈ l := by
  have hnodup : (l ++ a :: l').Nodup := by
    rw [← h, ← OrderedSet.toList_insertAll_empty]
    exact (OrderedSet.insertAll _ _).nodup
  have hmem : a ∈ xs := by
    rw [← List.mem_eraseDups, h]
    exact List.mem_append_right l List.mem_cons_self
  obtain ⟨m, m', rfl, hm⟩ := List.eq_append_cons_of_mem hmem
  refine ⟨m, m', rfl, ?_⟩
  have hfirst : (m ++ a :: m').eraseDups =
      m.eraseDups ++ a :: ((m'.removeAll m).filter fun b ↦ !b == a).eraseDups := by
    rw [List.eraseDups_append, List.removeAll, List.filter_cons_of_pos (by simpa using hm),
      List.eraseDups_cons]
    rfl
  have hnotMem : a ∉ l ++ l' := (List.nodup_cons.mp (List.nodup_middle.mp hnodup)).1
  rw [List.mem_append, not_or] at hnotMem
  obtain ⟨rfl, -, -⟩ :=
    (List.append_cons_inj_of_notMem hnotMem.1 hnotMem.2).mp (h.symm.trans hfirst)
  exact fun b ↦ List.mem_eraseDups.mpr

namespace Usage

variable {d : Declarations} {stage : Stage}

/-! ### Order of an expansion -/

theorem Expands.mem_before_of_path {es t l l' : List Event} {e e' : Event} (h : Expands d es t)
    (ht : t = l ++ e :: l') (hpath : Relation.TransGen (Leads d) e e') : e' ∈ l := by
  induction hpath with
  | single hleads => exact h.mem_before ht hleads
  | tail _ hleads ih =>
      obtain ⟨m, m', rfl⟩ := List.append_of_mem ih
      rw [List.append_assoc, List.cons_append] at ht
      exact List.mem_append_left _ (h.mem_before ht hleads)

/-- Code that has an expansion never leads back to itself. -/
theorem Expands.acyclic {es t : List Event} {e : Event} (h : Expands d es t)
    (he : Reaches d es e) : ¬ Relation.TransGen (Leads d) e e := by
  obtain ⟨l, l', ht, hfirst⟩ := List.eq_append_cons_of_mem (h.mem_iff_reaches.mpr he)
  exact fun hpath ↦ hfirst (h.mem_before_of_path ht hpath)

/-- What a member of a set of first occurrences leads to stands before it. -/
theorem mem_before_of_picked {α : Type} [DecidableEq α] {s : OrderedSet α} {es t : List Event}
    {pick : Event → Option α} (ht : Expands d es t)
    (hs : s.toList = (t.filterMap pick).eraseDups) {l l' : List α} {a b : α} {e : Event}
    (hsplit : s.toList = l ++ a :: l') (hpick : pick e = some b)
    (hpath : ∀ e', pick e' = some a → Relation.TransGen (Leads d) e' e) : b ∈ l := by
  obtain ⟨m, m', hm, hbefore⟩ := eraseDups_eq_append_cons (hs.symm.trans hsplit)
  obtain ⟨l₁, l₂, hl, rfl, htail⟩ := List.filterMap_eq_append_iff.mp hm
  obtain ⟨k₁, e', k₂, rfl, hnone, he', -⟩ := List.filterMap_eq_cons_iff.mp htail
  rw [← List.append_assoc] at hl
  rcases List.mem_append.mp (ht.mem_before_of_path hl (hpath e' he')) with he | he
  · exact hbefore b (List.mem_filterMap.mpr ⟨e, he, hpick⟩)
  · cases (hnone e he).symm.trans hpick

/-! ### Recursive helpers -/

/-- Whatever an event refers to is declared and allowed in the stage. -/
def Event.Allowed (d : Declarations) (stage : Stage) : Event → Prop
  | .read (.builtin b) => b.stage = stage
  | .read (.constant i) => i < d.constants.size
  | .read (.argument _) => True
  | .read (.localVar ..) => True
  | .read (.uniform n) => d.uniforms.contains n = true
  | .read (.uniformStruct n) => d.uniformStructs.contains n = true
  | .read (.sampler n) => d.samplers.contains n = true
  | .read (.vertexAttribute n) => d.attributes.contains n = true ∧ stage = .vertex
  | .read (.varying n) => d.varyings.contains n = true
  | .read (.output n) => d.outputs.contains n = true ∧ stage = .fragment
  | .call n => d.helpers.contains n = true
  | .write _ => True
  | .leave _ => True
  | .discard => stage = .fragment

/-- The only fault of what is allowed is a helper that is being followed already. -/
theorem Event.Allowed.recursive {e : Event} {active : List String} {err : Error}
    (he : e.Allowed d stage) (hfault : e.fault? d stage active = some err) :
    ∃ n ∈ active, e = .call n ∧ err = .recursiveHelper n := by
  cases e with
  | call n =>
      have hn : d.helpers.contains n = true := he
      simp only [fault?, hn, if_true] at hfault
      split at hfault
      · next hactive =>
        cases hfault
        exact ⟨n, hactive, rfl, rfl⟩
      · cases hfault
  | read h => cases h <;> simp_all [Allowed, fault?]
  | discard => simp_all [Allowed, fault?]
  | _ => cases hfault

/-- A helper calls another one in its own code, or a constant that it reads does, directly or
through other constants. -/
def Calls (d : Declarations) (f g : String) : Prop :=
  Leads d (.call f) (.call g) ∨
    ∃ i j, Leads d (.call f) (.read (.constant i)) ∧ Relation.ReflTransGen (RefersTo d) i j ∧
      Leads d (.read (.constant j)) (.call g)

theorem RefersTo.path {i j : Nat} (h : Relation.ReflTransGen (RefersTo d) i j) :
    Relation.ReflTransGen (Leads d) (.read (.constant i)) (.read (.constant j)) :=
  h.lift (fun i ↦ Event.read (.constant i)) fun _ _ ↦ RefersTo.leads

theorem Calls.path {f g : String} (h : Calls d f g) :
    Relation.TransGen (Leads d) (.call f) (.call g) := by
  rcases h with hleads | ⟨i, j, hfirst, hpath, hlast⟩
  · exact .single hleads
  · exact .tail' (.head hfirst (RefersTo.path hpath)) hlast

theorem refersTo_of_leads {i j : Nat} (h : Leads d (.read (.constant i)) (.read (.constant j))) :
    RefersTo d i j := by
  obtain ⟨body, hcode, hbody⟩ := h
  obtain ⟨value, hvalue, rfl⟩ := Option.map_eq_some_iff.mp hcode
  exact ⟨value, hvalue, hbody⟩

/-- A path from a helper passes through calls of helpers, and through constants after the last of
them. -/
theorem calls_of_path {f : String} {e : Event} (h : Relation.TransGen (Leads d) (.call f) e) :
    (∀ g, e = .call g → Relation.TransGen (Calls d) f g) ∧
    ∀ j, e = .read (.constant j) → ∃ g i, Relation.ReflTransGen (Calls d) f g ∧
      Leads d (.call g) (.read (.constant i)) ∧ Relation.ReflTransGen (RefersTo d) i j := by
  induction h with
  | single hleads =>
      constructor
      · rintro g rfl
        exact .single (.inl hleads)
      · rintro j rfl
        exact ⟨f, j, .refl, hleads, .refl⟩
  | @tail e e' _ hleads ih =>
      rcases e.plain_or_reference with hplain | ⟨k, rfl⟩ | ⟨n, rfl⟩
      · obtain ⟨body, hcode, -⟩ := hleads
        cases hplain.code?.symm.trans hcode
      · obtain ⟨m, i, hm, hi, hk⟩ := ih.2 k rfl
        constructor
        · rintro g rfl
          exact .tail' hm (.inr ⟨i, k, hi, hk, hleads⟩)
        · rintro j rfl
          exact ⟨m, i, hm, hi, hk.tail (refersTo_of_leads hleads)⟩
      · have hn := ih.1 n rfl
        constructor
        · rintro g rfl
          exact hn.tail (.inl hleads)
        · rintro j rfl
          exact ⟨n, j, hn.to_reflTransGen, hleads, .refl⟩

theorem path_iff_calls {f g : String} :
    Relation.TransGen (Leads d) (.call f) (.call g) ↔ Relation.TransGen (Calls d) f g := by
  refine ⟨fun h ↦ (calls_of_path h).1 g rfl, fun h ↦ ?_⟩
  induction h with
  | single hcalls => exact hcalls.path
  | tail _ hcalls ih => exact ih.trans hcalls.path

/-- A helper is reached from some code and calls itself, directly or through other helpers. -/
def Recursive (d : Declarations) (es : List Event) (f : String) : Prop :=
  Reaches d es (.call f) ∧ Relation.TransGen (Calls d) f f

theorem Recursive.mono {es es' : List Event} {f : String} (hsub : ∀ e ∈ es, e ∈ es')
    (h : Recursive d es f) : Recursive d es' f :=
  ⟨h.1.mono hsub, h.2⟩

/-- Code that is being walked over while some helpers are being followed: all of it is allowed, and
those helpers lead to it. -/
structure Following (d : Declarations) (stage : Stage) (active : List String) (es : List Event) :
    Prop where
  allowed : ∀ e, Reaches d es e → e.Allowed d stage
  leads : ∀ n ∈ active, ∀ e ∈ es, Relation.TransGen (Leads d) (.call n) e

theorem Following.tail {active : List String} {e : Event} {es : List Event}
    (h : Following d stage active (e :: es)) : Following d stage active es where
  allowed e' he' := h.allowed e' (he'.mono fun _ ↦ List.mem_cons_of_mem e)
  leads n hn e' he' := h.leads n hn e' (List.mem_cons_of_mem e he')

theorem Following.code {active : List String} {e : Event} {es body : List Event}
    (h : Following d stage active es) (he : e ∈ es) (hcode : e.code? d = some body) :
    Following d stage (e.enter active) body where
  allowed e' he' := h.allowed e' (he'.of_code he hcode)
  leads n hn e' he' := by
    have hleads : Leads d e e' := ⟨body, hcode, he'⟩
    unfold Event.enter at hn
    split at hn
    · rcases List.mem_cons.mp hn with rfl | hn
      · exact .single hleads
      · exact (h.leads n hn _ he).tail hleads
    · exact (h.leads n hn e he).tail hleads

/-- A walk over allowed code fails only for a recursive helper. -/
theorem Walks.recursive {active : List String} {es : List Event} {u : Usage} {err : Error}
    (h : Walks d stage active es u (.error err)) (hes : Following d stage active es) :
    ∃ f, err = .recursiveHelper f ∧ Recursive d es f := by
  have htail : ∀ {e : Event} {es : List Event},
      (∃ f, err = .recursiveHelper f ∧ Recursive d es f) →
        ∃ f, err = .recursiveHelper f ∧ Recursive d (e :: es) f := by
    rintro e es ⟨f, hf, hrecursive⟩
    exact ⟨f, hf, hrecursive.mono fun _ ↦ List.mem_cons_of_mem e⟩
  generalize hr : Except.error err = r at h
  induction h with
  | nil => cases hr
  | seen _ _ ih => exact htail (ih hes.tail hr)
  | refused _ hfault =>
      cases hr
      -- The helper is being followed, so that it leads to this call of itself.
      have he := hes.allowed _ (reaches_of_mem List.mem_cons_self)
      obtain ⟨n, hn, rfl, rfl⟩ := he.recursive hfault
      have hself := hes.leads n hn _ List.mem_cons_self
      exact ⟨n, rfl, reaches_of_mem List.mem_cons_self, path_iff_calls.mp hself⟩
  | plain _ _ _ _ ih => exact htail (ih hes.tail hr)
  | followed _ _ _ _ _ _ ih => exact htail (ih hes.tail hr)
  | failed _ _ hcode _ ih =>
      obtain ⟨f, hf, hreaches, hcycle⟩ := ih (hes.code List.mem_cons_self hcode) hr
      exact ⟨f, hf, hreaches.of_code List.mem_cons_self hcode, hcycle⟩

/-! ### Callees first -/

/-- Every helper and every constant that some code reaches is there once, after all the helpers that
it calls or all the constants that its value refers to. -/
structure CalleesFirst (d : Declarations) (es : List Event) (u : Usage) : Prop where
  helpers_count : ∀ n, Reaches d es (.call n) → u.helpers.toList.count n = 1
  helpers_reached : ∀ n ∈ u.helpers, Reaches d es (.call n)
  helpers_order : ∀ f g l l', u.helpers.toList = l ++ f :: l' → Calls d f g → g ∈ l
  constants_count : ∀ i, Reaches d es (.read (.constant i)) → u.constants.toList.count i = 1
  constants_reached : ∀ i ∈ u.constants, Reaches d es (.read (.constant i))
  constants_order : ∀ i j l l', u.constants.toList = l ++ i :: l' → RefersTo d i j → j ∈ l

theorem Traced.mem_helpers {t : List Event} {u : Usage} {n : String} (hu : Traced t u) :
    n ∈ u.helpers ↔ .call n ∈ t := by
  rw [mem_iff_picked hu.helpers]
  constructor
  · rintro ⟨e, he, hpick⟩
    split at hpick <;> cases hpick
    exact he
  · exact fun he ↦ ⟨_, he, rfl⟩

theorem Traced.mem_constants {t : List Event} {u : Usage} {i : Nat} (hu : Traced t u) :
    i ∈ u.constants ↔ .read (.constant i) ∈ t := by
  rw [mem_iff_picked hu.constants]
  constructor
  · rintro ⟨e, he, hpick⟩
    split at hpick <;> cases hpick
    exact he
  · exact fun he ↦ ⟨_, he, rfl⟩

theorem Traced.calleesFirst {es t : List Event} {u : Usage} (hu : Traced t u)
    (ht : Expands d es t) : CalleesFirst d es u where
  helpers_count n hn :=
    List.count_eq_one_of_mem u.helpers.nodup (hu.mem_helpers.mpr (ht.mem_iff_reaches.mpr hn))
  helpers_reached n hn := ht.mem_iff_reaches.mp (hu.mem_helpers.mp hn)
  helpers_order f g l l' hsplit hcalls := by
    refine mem_before_of_picked (e := .call g) ht hu.helpers hsplit rfl ?_
    intro e he
    split at he <;> cases he
    exact hcalls.path
  constants_count i hi :=
    List.count_eq_one_of_mem u.constants.nodup (hu.mem_constants.mpr (ht.mem_iff_reaches.mpr hi))
  constants_reached i hi := ht.mem_iff_reaches.mp (hu.mem_constants.mp hi)
  constants_order i j l l' hsplit hrefers := by
    refine mem_before_of_picked (e := .read (.constant j)) ht hu.constants hsplit rfl ?_
    intro e he
    split at he <;> cases he
    exact .single hrefers.leads

theorem calleesFirst_of_eq_ok {body : Block} {u : Usage} (h : Usage.of d stage body = .ok u) :
    CalleesFirst d (Event.ofBlock true body) u := by
  obtain ⟨t, ht, hu⟩ := (walks_of_eq_ok h).exists_traced
  exact hu.calleesFirst ht

/-- A walk that succeeds reaches no recursive helper. -/
theorem Walks.not_recursive {es : List Event} {u : Usage} {f : String}
    (h : Walks d stage [] es .empty (.ok u)) : ¬ Recursive d es f := by
  obtain ⟨t, ht, -⟩ := h.exists_traced
  rintro ⟨hreaches, hcycle⟩
  exact ht.acyclic hreaches (path_iff_calls.mpr hcycle)

/-- Where no constant refers to itself, the walk without bounds always ends, with the outcome of the
analysis.  Over code that is declared and allowed it fails exactly if there is a recursive helper,
and names one, and else it finds all that is reached, callees first. -/
theorem recursion_rejected (d : Declarations) (stage : Stage) (body : Block)
    (hconstants : ∀ i, ¬ Relation.TransGen (RefersTo d) i i) :
    (∀ r, Walks d stage [] (Event.ofBlock true body) .empty r ↔ r = Usage.of d stage body) ∧
    ((∀ e, Reaches d (Event.ofBlock true body) e → e.Allowed d stage) →
      ((∃ f, Usage.of d stage body = .error (.recursiveHelper f)) ↔
        ∃ f, Recursive d (Event.ofBlock true body) f) ∧
      (∀ err, Usage.of d stage body = .error err →
        ∃ f, Recursive d (Event.ofBlock true body) f ∧ err.category = .invalidArgument ∧
          err.detail = "function " ++ f ++ " calls itself") ∧
      ((¬ ∃ f, Recursive d (Event.ofBlock true body) f) →
        ∃ u, Usage.of d stage body = .ok u ∧
          CalleesFirst d (Event.ofBlock true body) u)) := by
  have hwalks : Walks d stage [] (Event.ofBlock true body) .empty (Usage.of d stage body) :=
    walks_of fun i _ ↦ hconstants i
  refine ⟨fun r ↦ ⟨fun h ↦ h.unique hwalks, fun h ↦ h ▸ hwalks⟩, fun hallowed ↦ ?_⟩
  have hfollowing : Following d stage [] (Event.ofBlock true body) := ⟨hallowed, by simp⟩
  cases hof : Usage.of d stage body with
  | error err =>
      rw [hof] at hwalks
      obtain ⟨f, rfl, hf⟩ := hwalks.recursive hfollowing
      refine ⟨⟨fun _ ↦ ⟨f, hf⟩, fun _ ↦ ⟨f, rfl⟩⟩, ?_, fun hnone ↦ (hnone ⟨f, hf⟩).elim⟩
      rintro err ⟨⟩
      exact ⟨f, hf, rfl, rfl⟩
  | ok u =>
      rw [hof] at hwalks
      obtain ⟨t, ht, hu⟩ := hwalks.exists_traced
      refine ⟨⟨by simp, fun ⟨f, hf⟩ ↦ (hwalks.not_recursive hf).elim⟩, by simp, fun _ ↦ ?_⟩
      exact ⟨u, rfl, hu.calleesFirst ht⟩

/-- A helper that calls itself through a constant and another helper. -/
def looping : Declarations :=
  { Declarations.empty with
    constants := #[⟨.float, .call (.helper "pong") []⟩]
    helpers := (Table.empty.add "ping" ⟨[], [], some ⟨.float, .var (.constant 0)⟩⟩).add "pong"
      ⟨[], [.leave (some (.call (.helper "ping") []))], none⟩ }

def loopingBody : Block :=
  [.leave (some (.call (.helper "ping") []))]

/-- Code reaches nothing but events that it has and that lead to nothing else. -/
theorem Reaches.mem_of_closed {es known : List Event} {e : Event} (h : Reaches d es e)
    (hes : ∀ e ∈ es, e ∈ known)
    (hclosed : ∀ e ∈ known, ∀ e' ∈ (e.code? d).getD [], e' ∈ known) : e ∈ known := by
  obtain ⟨first, hfirst, hpath⟩ := h
  induction hpath with
  | refl => exact hes first hfirst
  | tail _ hleads ih =>
      obtain ⟨body, hcode, hbody⟩ := hleads
      exact hclosed _ ih _ (by rwa [hcode])

theorem not_path_of_not_refersTo (hnone : ∀ i j, ¬ RefersTo d i j) (i : Nat) :
    ¬ Relation.TransGen (RefersTo d) i i := by
  intro hpath
  obtain ⟨j, hj, -⟩ := Relation.TransGen.head'_iff.mp hpath
  exact hnone i j hj

theorem recursion_rejected_looping :
    Usage.of looping .vertex loopingBody = .error (.recursiveHelper "ping") ∧
      (∃ f, Recursive looping (Event.ofBlock true loopingBody) f) ∧
      ∃ u, Usage.of layered .fragment layeredBody = .ok u ∧
        CalleesFirst layered (Event.ofBlock true layeredBody) u := by
  have hlooping : ∀ i j, ¬ RefersTo looping i j := by
    rintro i j ⟨value, hvalue, hmem⟩
    obtain ⟨hi, rfl⟩ := Array.getElem?_eq_some_iff.mp hvalue
    obtain rfl : i = 0 := Nat.lt_one_iff.mp hi
    simp [looping, Event.ofExpr, Event.ofExprs] at hmem
  have hlayered : ∀ i j, ¬ RefersTo layered i j := by
    rintro i j ⟨value, hvalue, hmem⟩
    obtain ⟨hi, rfl⟩ := Array.getElem?_eq_some_iff.mp hvalue
    obtain rfl : i = 0 := Nat.lt_one_iff.mp hi
    simp [layered, Event.ofExpr] at hmem
  have hloopingAllowed : ∀ e, Reaches looping (Event.ofBlock true loopingBody) e →
      e.Allowed looping .vertex := by
    intro e he
    have hmem : e ∈ [Event.leave true, .call "ping", .read (.constant 0), .call "pong"] :=
      he.mem_of_closed (by decide) (by decide)
    simp only [List.mem_cons, List.not_mem_nil, or_false] at hmem
    rcases hmem with rfl | rfl | rfl | rfl
    exacts [trivial, rfl, Nat.zero_lt_one, rfl]
  have hlayeredAllowed : ∀ e, Reaches layered (Event.ofBlock true layeredBody) e →
      e.Allowed layered .fragment := by
    intro e he
    have hmem : e ∈ [Event.leave true, .leave false, .write (.output "albedo"),
        .write (.builtin .fragColor), .read (.constant 0), .read (.builtin .fragColor),
        .read (.output "albedo"), .read (.uniform "slot"), .read (.uniform "tint"),
        .read (.uniform "level"), .call "shade", .call "fade"] :=
      he.mem_of_closed (by decide) (by decide)
    simp only [List.mem_cons, List.not_mem_nil, or_false] at hmem
    rcases hmem with rfl | rfl | rfl | rfl | rfl | rfl | rfl | rfl | rfl | rfl | rfl | rfl
    exacts [trivial, trivial, trivial, trivial, Nat.zero_lt_one, rfl, ⟨rfl, rfl⟩, rfl, rfl, rfl,
      rfl, rfl]
  obtain ⟨-, hloop⟩ :=
    recursion_rejected looping .vertex loopingBody (not_path_of_not_refersTo hlooping)
  obtain ⟨-, hlayer⟩ :=
    recursion_rejected layered .fragment layeredBody (not_path_of_not_refersTo hlayered)
  obtain ⟨u, hu⟩ : ∃ u, Usage.of layered .fragment layeredBody = .ok u := ⟨_, rfl⟩
  refine ⟨rfl, (hloop hloopingAllowed).1.mp ⟨"ping", rfl⟩, (hlayer hlayeredAllowed).2.2 ?_⟩
  rintro ⟨f, hf⟩
  exact (walks_of_eq_ok hu).not_recursive hf

end Usage

end Shading
