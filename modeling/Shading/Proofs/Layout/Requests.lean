import Shading.Proofs.Layout.Locations

/-!
# Requests for locations

Explicit locations are claimed in the order of the requests, and the first one that is claimed again
is a collision.  Without a collision, the other requests get the numbers that nobody claims, in
ascending order.
-/

namespace Shading.Layout

/-- The locations that are asked for. -/
def explicit (requests : List (String × Option Nat)) : List Nat :=
  requests.filterMap Prod.snd

/-- How many requests ask for no location of their own. -/
def automatic (requests : List (String × Option Nat)) : Nat :=
  requests.countP (·.2.isNone)

/-- What is claimed, and by whom. -/
def claims (requests : List (String × Option Nat)) : List (Nat × String) :=
  requests.filterMap fun r ↦ r.2.map fun index ↦ (index, r.1)

theorem map_fst_claims (requests : List (String × Option Nat)) :
    (claims requests).map Prod.fst = explicit requests := by
  rw [claims, List.map_filterMap, explicit]
  apply List.filterMap_congr
  rintro ⟨name, index⟩ _
  cases index <;> rfl

theorem mem_claims {requests : List (String × Option Nat)} {index : Nat} {name : String} :
    (index, name) ∈ claims requests ↔ (name, some index) ∈ requests := by
  rw [claims, List.mem_filterMap]
  constructor
  · rintro ⟨⟨n, i⟩, hmem, h⟩
    obtain ⟨j, rfl, h⟩ := Option.map_eq_some_iff.mp h
    cases h
    exact hmem
  · intro hmem
    exact ⟨_, hmem, rfl⟩

/-! ### Claims -/

section

variable {kind : DeclKind} {requests : List (String × Option Nat)}

theorem claimLocations_append (claimed : List (Nat × String))
    (before rest : List (String × Option Nat)) :
    claimLocations kind claimed (before ++ rest) =
      claimLocations kind claimed before >>= fun claimed ↦ claimLocations kind claimed rest := by
  induction before generalizing claimed with
  | nil => rfl
  | cons r before ih =>
      obtain ⟨name, index⟩ := r
      cases index with
      | none => exact ih claimed
      | some index =>
          rw [List.cons_append, claimLocations, claimLocations, bind_assoc]
          exact bind_congr fun claimed ↦ ih claimed

/-- Different locations are all claimed. -/
theorem claimLocations_of_nodup (claimed : List (Nat × String))
    (h : (claimed.map Prod.fst ++ explicit requests).Nodup) :
    claimLocations kind claimed requests = .ok (claimed ++ claims requests) := by
  induction requests generalizing claimed with
  | nil => rw [claims, List.filterMap_nil, List.append_nil, claimLocations]; rfl
  | cons r requests ih =>
      obtain ⟨name, index⟩ := r
      cases index with
      | none => exact ih claimed h
      | some index =>
          have hfree : claimed.lookup index = none := by
            rw [List.lookup_eq_none_iff]
            intro c hc
            have hne := (List.nodup_append.mp h).2.2 c.1 (List.mem_map_of_mem hc) index
              List.mem_cons_self
            simpa using hne.symm
          have hclaim : claim (.location kind) claimed index name =
              .ok (claimed ++ [(index, name)]) := by
            rw [claim, hfree]
            rfl
          have hrest : ((claimed ++ [(index, name)]).map Prod.fst ++ explicit requests).Nodup := by
            rwa [List.map_append, List.append_assoc]
          rw [claimLocations, hclaim]
          refine (ih _ hrest).trans ?_
          rw [List.append_assoc]
          rfl

/-- A location that is claimed by `first` is asked for by `name`, and before that none is asked for
twice. -/
def CollidesFirst (requests : List (String × Option Nat)) (index : Nat) (first name : String) :
    Prop :=
  ∃ before after, requests = before ++ (name, some index) :: after ∧ (explicit before).Nodup ∧
    (first, some index) ∈ before

theorem CollidesFirst.ne (hnames : (requests.map Prod.fst).Nodup) {index : Nat}
    {first name : String} (h : CollidesFirst requests index first name) : first ≠ name := by
  obtain ⟨before, after, rfl, -, hfirst⟩ := h
  rw [List.map_append] at hnames
  exact (List.nodup_append.mp hnames).2.2 first (List.mem_map_of_mem hfirst) name
    List.mem_cons_self

theorem CollidesFirst.mem {index : Nat} {first name : String}
    (h : CollidesFirst requests index first name) :
    (first, some index) ∈ requests ∧ (name, some index) ∈ requests := by
  obtain ⟨before, after, rfl, -, hfirst⟩ := h
  exact ⟨List.mem_append_left _ hfirst, List.mem_append_right _ List.mem_cons_self⟩

theorem claimLocations_of_collides (hnames : (requests.map Prod.fst).Nodup) {index : Nat}
    {first name : String} (h : CollidesFirst requests index first name) :
    claimLocations kind [] requests =
      .error (.indexCollision (.location kind) index first name) := by
  have hne := h.ne hnames
  obtain ⟨before, after, rfl, hnodup, hfirst⟩ := h
  have hlookup : (claims before).lookup index = some first := by
    apply lookup_of_mem
    · rwa [map_fst_claims]
    · exact mem_claims.mpr hfirst
  have hclaim : claim (.location kind) (claims before) index name =
      .error (.indexCollision (.location kind) index first name) := by
    rw [claim, hlookup]
    exact if_neg hne
  have hbefore : claimLocations kind [] before = .ok (claims before) :=
    claimLocations_of_nodup [] hnodup
  rw [claimLocations_append, hbefore]
  change claimLocations kind (claims before) ((name, some index) :: after) = _
  rw [claimLocations, hclaim]
  rfl

/-- If a location is asked for twice, there is a first collision. -/
theorem exists_collidesFirst (h : ¬ (explicit requests).Nodup) :
    ∃ index first name, CollidesFirst requests index first name := by
  -- Either the requests before the last one collide already, or the last one is the first to.
  induction requests using List.reverseRecOn with
  | nil => exact (h List.nodup_nil).elim
  | append_singleton requests r ih =>
      by_cases hnodup : (explicit requests).Nodup
      · obtain ⟨name, index⟩ := r
        cases index with
        | none =>
            have hsame : explicit (requests ++ [(name, none)]) = explicit requests := by
              simp [explicit]
            exact (h (hsame ▸ hnodup)).elim
        | some index =>
            have hmem : index ∈ explicit requests := by
              have hlast : explicit (requests ++ [(name, some index)]) =
                  (explicit requests).concat index := by simp [explicit]
              by_contra hfree
              rw [hlast] at h
              exact h (hnodup.concat hfree)
            obtain ⟨⟨first, i⟩, hfirst, rfl⟩ := List.mem_filterMap.mp hmem
            exact ⟨index, first, name, requests, [], rfl, hnodup, hfirst⟩
      · obtain ⟨index, first, name, before, after, rfl, hbefore⟩ := ih hnodup
        exact ⟨index, first, name, before, after ++ [r], by simp, hbefore⟩

theorem eq_of_nodup_explicit (h : (explicit requests).Nodup) {n m : String} {i : Nat}
    (hn : (n, some i) ∈ requests) (hm : (m, some i) ∈ requests) : n = m := by
  rw [← map_fst_claims] at h
  have heq := List.inj_on_of_nodup_map h (mem_claims.mpr hn) (mem_claims.mpr hm) rfl
  exact (Prod.mk.inj heq).2

theorem allocateLocations_of_nodup (h : (explicit requests).Nodup) :
    allocateLocations kind requests = .ok (fillLocations (explicit requests) requests) := by
  have hclaims : claimLocations kind [] requests = .ok (claims requests) :=
    claimLocations_of_nodup [] h
  rw [allocateLocations, hclaims]
  change Except.ok (fillLocations ((claims requests).map Prod.fst) requests) = _
  rw [map_fst_claims]

/-- Allocation fails with the first collision and with nothing else. -/
theorem allocateLocations_eq_error_iff (hnames : (requests.map Prod.fst).Nodup) {e : Error} :
    allocateLocations kind requests = .error e ↔ ∃ index first name,
      CollidesFirst requests index first name ∧
      e = .indexCollision (.location kind) index first name := by
  have herror : ∀ {index first name}, CollidesFirst requests index first name →
      allocateLocations kind requests =
        .error (.indexCollision (.location kind) index first name) := by
    intro index first name h
    rw [allocateLocations, claimLocations_of_collides hnames h]
    rfl
  constructor
  · intro h
    have hnodup : ¬ (explicit requests).Nodup := by
      intro hnodup
      rw [allocateLocations_of_nodup hnodup] at h
      cases h
    obtain ⟨index, first, name, hcollides⟩ := exists_collidesFirst hnodup
    exact ⟨index, first, name, hcollides, Except.error.inj (h.symm.trans (herror hcollides))⟩
  · rintro ⟨index, first, name, hcollides, rfl⟩
    exact herror hcollides

end

/-! ### Automatic locations -/

theorem exists_fillLocations_append {base taken : List Nat} {k : Nat} (h : Handed base k taken)
    (before : List (String × Option Nat)) :
    ∃ taken', Handed base (k + automatic before) taken' ∧ ∀ rest,
      fillLocations taken (before ++ rest) =
        fillLocations taken before ++ fillLocations taken' rest := by
  -- Only automatic requests take a number, and each takes the next one outside the base.
  induction before generalizing taken k with
  | nil => exact ⟨taken, h, fun rest ↦ rfl⟩
  | cons r before ih =>
      obtain ⟨name, index⟩ := r
      cases index with
      | some index =>
          obtain ⟨taken', htaken', hfill⟩ := ih h
          exact ⟨taken', htaken', fun rest ↦ congrArg _ (hfill rest)⟩
      | none =>
          obtain ⟨taken', htaken', hfill⟩ := ih h.cons
          refine ⟨taken', ?_, fun rest ↦ congrArg _ (hfill rest)⟩
          have hcount : automatic ((name, none) :: before) = automatic before + 1 := by
            simp [automatic]
          rwa [hcount, Nat.add_comm (automatic before), ← Nat.add_assoc]

/-- Every request has its own location or, if it has none, the next one that no request claims. -/
structure Allotted (requests : List (String × Option Nat)) (locations : List (String × Nat)) :
    Prop where
  names : locations.map Prod.fst = requests.map Prod.fst
  nodup : (locations.map Prod.snd).Nodup
  lookup_eq : ∀ before name wanted after, requests = before ++ (name, wanted) :: after →
    locations.lookup name =
      some (wanted.getD (Nat.nth (· ∉ explicit requests) (automatic before)))

theorem allotted_of_allocateLocations {kind : DeclKind} {requests : List (String × Option Nat)}
    {locations : List (String × Nat)} (hnames : (requests.map Prod.fst).Nodup)
    (h : allocateLocations kind requests = .ok locations) : Allotted requests locations := by
  obtain ⟨hfst, hsnd⟩ := allocateLocations_eq_ok hnames h
  refine ⟨hfst, hsnd, ?_⟩
  have hnodup : (explicit requests).Nodup := by
    by_contra hnodup
    obtain ⟨index, first, name, hcollides⟩ := exists_collidesFirst hnodup
    rw [allocateLocations, claimLocations_of_collides hnames hcollides] at h
    cases h
  obtain rfl := Except.ok.inj ((allocateLocations_of_nodup hnodup).symm.trans h)
  intro before name wanted after hsplit
  have hnone : Handed (explicit requests) 0 (explicit requests) := handed_zero fun _ ↦ Iff.rfl
  obtain ⟨taken, htaken, hfill⟩ := exists_fillLocations_append hnone before
  rw [Nat.zero_add] at htaken
  apply lookup_of_mem (hfst.symm ▸ hnames)
  have hlocations := (congrArg _ hsplit).trans (hfill ((name, wanted) :: after))
  rw [hlocations, ← htaken.lowestFree_eq]
  apply List.mem_append_right
  cases wanted <;> exact List.mem_cons_self

end Shading.Layout
