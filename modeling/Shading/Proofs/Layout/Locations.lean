import Shading.Layout.Allocate
import Shading.Proofs.Collection
import Shading.Proofs.Layout.Bindings

/-!
# Handing out locations

Locations are handed out like bindings of a single group in which every resource needs one slot.
-/

namespace Shading.Layout

/-- A request for a location as a request for a slot. -/
def slotRequest (r : String × Option Nat) : BindingRequest :=
  ⟨r.1, .buffer, 0, r.2⟩

def slotClaim (c : Nat × String) : Claim :=
  ⟨0, c.1, c.2⟩

def slotOf (l : String × Nat) : String × Slots :=
  (l.1, .buffer ⟨0, l.2⟩)

theorem find?_slotClaim (claimed : List (Nat × String)) (index : Nat) :
    ((claimed.map slotClaim).find? fun o ↦ o.group = 0 ∧ o.index = index).map Claim.name =
      claimed.lookup index := by
  induction claimed with
  | nil => rfl
  | cons c claimed ih =>
      rw [List.map_cons, List.find?_cons, List.lookup_cons]
      by_cases hc : index = c.1
      · simp [slotClaim, hc]
      · have hne : c.1 ≠ index := fun heq ↦ hc heq.symm
        have hbeq : (index == c.1) = false := by simpa using hc
        rw [hbeq]
        simpa [slotClaim, hne] using ih

theorem claimSlot_of_claim {space : IndexSpace} {claimed claimed' : List (Nat × String)}
    {index : Nat} {name : String} (h : claim space claimed index name = .ok claimed') :
    claimSlot (claimed.map slotClaim) ⟨0, index, name⟩ = .ok (claimed'.map slotClaim) := by
  have hfind := find?_slotClaim claimed index
  unfold claim at h
  unfold claimSlot
  dsimp only
  split at h
  · next hnone =>
    rw [hnone, Option.map_eq_none_iff] at hfind
    cases h
    rw [hfind, List.map_append]
    rfl
  · next first hfirst =>
    rw [hfirst] at hfind
    obtain ⟨o, ho, rfl⟩ := Option.map_eq_some_iff.mp hfind
    split at h
    · next hname =>
      cases h
      rw [ho]
      exact if_pos hname
    · cases h

theorem claimBindings_of_claimLocations {kind : DeclKind} {claimed claimed' : List (Nat × String)}
    {requests : List (String × Option Nat)}
    (h : claimLocations kind claimed requests = .ok claimed') :
    claimBindings (claimed.map slotClaim) (requests.map slotRequest) =
      .ok (claimed'.map slotClaim) := by
  induction requests generalizing claimed with
  | nil =>
      cases h
      rfl
  | cons r rest ih =>
      obtain ⟨name, index⟩ := r
      cases index with
      | none => exact ih h
      | some index =>
          obtain ⟨first, hfirst, hrest⟩ := bind_eq_ok.mp h
          refine bind_eq_ok.mpr ⟨first.map slotClaim, ?_, ih hrest⟩
          exact bind_eq_ok.mpr ⟨_, claimSlot_of_claim hfirst, rfl⟩

theorem fillBindings_slotRequest (taken : List (Nat × Nat)) (indices : List Nat)
    (htaken : takenIn 0 taken = indices) (requests : List (String × Option Nat)) :
    fillBindings taken (requests.map slotRequest) =
      (fillLocations indices requests).map slotOf := by
  induction requests generalizing taken indices with
  | nil => rfl
  | cons r rest ih =>
      obtain ⟨name, index⟩ := r
      subst htaken
      cases index with
      | some index => exact congrArg _ (ih taken (takenIn 0 taken) rfl)
      | none =>
          let index := lowestFree (takenIn 0 taken)
          exact congrArg _ (ih ((0, index) :: taken) (index :: takenIn 0 taken) rfl)

theorem allocateBindings_of_allocateLocations {kind : DeclKind}
    {requests : List (String × Option Nat)} {locations : List (String × Nat)}
    (h : allocateLocations kind requests = .ok locations) :
    allocateBindings (requests.map slotRequest) = .ok (locations.map slotOf) := by
  obtain ⟨claimed, hclaimed, hlocations⟩ := bind_eq_ok.mp h
  cases hlocations
  refine bind_eq_ok.mpr ⟨_, claimBindings_of_claimLocations hclaimed, ?_⟩
  rw [← fillBindings_slotRequest]
  · rfl
  · simp [takenIn, slotClaim, List.filter_map, Function.comp_def]

theorem points_slotOf (locations : List (String × Nat)) :
    (locations.map slotOf).flatMap (·.2.points) =
      (locations.map Prod.snd).map fun i ↦ (0, i) := by
  induction locations with
  | nil => rfl
  | cons l locations ih => exact congrArg _ ih

/-- Every request gets a location, and no two get the same. -/
theorem allocateLocations_eq_ok {kind : DeclKind} {requests : List (String × Option Nat)}
    {locations : List (String × Nat)} (hnames : (requests.map Prod.fst).Nodup)
    (h : allocateLocations kind requests = .ok locations) :
    locations.map Prod.fst = requests.map Prod.fst ∧ (locations.map Prod.snd).Nodup := by
  have hnodup : ((requests.map slotRequest).map BindingRequest.name).Nodup := by
    rwa [List.map_map]
  have hassigned :=
    assigned_of_allocateBindings hnodup (allocateBindings_of_allocateLocations h)
  refine ⟨?_, ?_⟩
  · have hfits := hassigned.fits
    rw [List.forall₂_map_left_iff, List.forall₂_map_right_iff] at hfits
    clear h hnames hnodup hassigned
    induction hfits with
    | nil => rfl
    | cons hl _ ih =>
        rw [List.map_cons, List.map_cons, ih]
        exact congrArg (· :: _) hl.1
  · have hpairs := hassigned.nodup
    rw [points_slotOf] at hpairs
    exact hpairs.of_map

/-- Resources with different names get locations of their own. -/
structure Located (names : List String) (locations : List (String × Nat)) : Prop where
  names : locations.map Prod.fst = names
  lookup_eq : ∀ {n i}, (n, i) ∈ locations → locations.lookup n = some i
  distinct : ∀ {n m i}, locations.lookup n = some i → locations.lookup m = some i → n = m

theorem Located.exists_lookup {names : List String} {locations : List (String × Nat)}
    (h : Located names locations) {n : String} (hn : n ∈ names) :
    ∃ i, locations.lookup n = some i := by
  rw [← h.names] at hn
  obtain ⟨⟨m, i⟩, hmem, rfl⟩ := List.mem_map.mp hn
  exact ⟨i, h.lookup_eq hmem⟩

theorem located_of_allocateLocations {kind : DeclKind} {requested : String → Option UInt32}
    {names : List String} (hnames : names.Nodup) {locations : List (String × Nat)}
    (h : allocateLocations kind (locationRequests requested names) = .ok locations) :
    Located names locations := by
  have hrequests : (locationRequests requested names).map Prod.fst = names := by
    simp [locationRequests, Function.comp_def]
  obtain ⟨hfst, hsnd⟩ := allocateLocations_eq_ok (hrequests.symm ▸ hnames) h
  rw [hrequests] at hfst
  refine ⟨hfst, ?_, ?_⟩
  · intro n i hmem
    exact lookup_of_mem (hfst.symm ▸ hnames) hmem
  · intro n m i hn hm
    have heq : (n, i) = (m, i) :=
      List.inj_on_of_nodup_map hsnd (mem_of_lookup hn) (mem_of_lookup hm) rfl
    exact (Prod.mk.inj heq).1

/-! ### Sorting -/

theorem perm_insertByLocation (item : String × Nat) (items : List (String × Nat)) :
    (insertByLocation item items).Perm (item :: items) := by
  induction items with
  | nil => exact .refl _
  | cons other rest ih =>
      rw [insertByLocation]
      split
      · exact .refl _
      · exact (ih.cons other).trans (.swap item other rest)

theorem perm_sortByLocation (items : List (String × Nat)) :
    (sortByLocation items).Perm items := by
  have hfold : ∀ sorted : List (String × Nat),
      (items.foldl (fun sorted item ↦ insertByLocation item sorted) sorted).Perm
        (sorted ++ items) := by
    induction items with
    | nil =>
        intro sorted
        rw [List.foldl_nil, List.append_nil]
    | cons item rest ih =>
        intro sorted
        exact (ih _).trans (((perm_insertByLocation item sorted).append_right rest).trans
          List.perm_middle.symm)
  exact hfold []

theorem perm_names_sortByLocation (location : String → Nat) (names : List String) :
    ((sortByLocation (names.map fun n ↦ (n, location n))).map Prod.fst).Perm names := by
  have hnames : (names.map fun n ↦ (n, location n)).map Prod.fst = names := by
    rw [List.map_map]
    exact List.map_id _
  exact ((perm_sortByLocation _).map Prod.fst).trans (.of_eq hnames)

theorem mem_sortByLocation {x : String × Nat} {items : List (String × Nat)} :
    x ∈ sortByLocation items ↔ x ∈ items :=
  (perm_sortByLocation items).mem_iff

end Shading.Layout
