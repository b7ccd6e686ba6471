import Shading.Proofs.Layout.Free
import Shading.Proofs.Outcome

/-!
# Handing out bindings

Requests with different names fail exactly when two of them claim a common slot, or when there is no
index left for the sampler object of one of them.  Otherwise explicit slots are kept, no slot is
given twice, and the automatic slots of a group are the numbers outside its claimed slots in
ascending order.
-/

namespace Shading.Layout

/-! ### Claims -/

/-- The slots that a request claims. -/
def BindingRequest.claimed (r : BindingRequest) : List (Nat × Nat) :=
  match r.index with
  | none => []
  | some i =>
    if r.need = .filteredTexture then [(r.group, i), (r.group, i + 1)] else [(r.group, i)]

/-- A request for a texture with a sampler object that would come after the last index. -/
def BindingRequest.Overflows (r : BindingRequest) : Prop :=
  r.need = .filteredTexture ∧ ∃ i, r.index = some i ∧ indexLimit ≤ i + 1

def BindingRequest.claims (r : BindingRequest) : List Claim :=
  r.claimed.map fun s ↦ ⟨s.1, s.2, r.name⟩

/-- Every slot is claimed under one name. -/
def Consistent (cs : List Claim) : Prop :=
  ∀ a ∈ cs, ∀ b ∈ cs, a.group = b.group → a.index = b.index → a.name = b.name

theorem Consistent.mono {cs ds : List Claim} (h : Consistent ds) (hsub : cs ⊆ ds) :
    Consistent cs :=
  fun a ha b hb ↦ h a (hsub ha) b (hsub hb)

theorem consistent_cons_iff {c : Claim} {cs : List Claim} : Consistent (c :: cs) ↔
    Consistent cs ∧ ∀ o ∈ cs, o.group = c.group → o.index = c.index → o.name = c.name := by
  constructor
  · intro h
    refine ⟨h.mono (List.subset_cons_self c cs), ?_⟩
    intro o ho
    exact h o (List.mem_cons_of_mem c ho) c List.mem_cons_self
  · rintro ⟨hcs, hc⟩ a ha b hb hgroup hindex
    rcases List.mem_cons.mp ha with rfl | hacs <;> rcases List.mem_cons.mp hb with rfl | hbcs
    · rfl
    · exact (hc b hbcs hgroup.symm hindex.symm).symm
    · exact hc a hacs hgroup hindex
    · exact hcs a hacs b hbcs hgroup hindex

/-- A slot that is claimed under the same name again stays as it is, so a claim adds itself and
nothing else. -/
theorem claimSlot_eq_ok {claimed claimed' : List Claim} {c : Claim}
    (h : claimSlot claimed c = .ok claimed') : ∀ o, o ∈ claimed' ↔ o = c ∨ o ∈ claimed := by
  unfold claimSlot at h
  split at h
  · cases h
    intro o
    rw [List.mem_append, List.mem_singleton, or_comm]
  · next first hfirst =>
    split at h
    · next hname =>
      cases h
      have hslot := List.find?_some hfirst
      have hc : c ∈ claimed := by
        have heq : first = c := by
          obtain ⟨group, index, name⟩ := first
          simp_all
        exact heq ▸ List.mem_of_find?_eq_some hfirst
      intro o
      constructor
      · exact .inr
      · rintro (rfl | ho)
        · exact hc
        · exact ho
    · cases h

theorem claimSlot_succeeds_iff {claimed : List Claim} (hclaimed : Consistent claimed) (c : Claim) :
    (∃ claimed', claimSlot claimed c = .ok claimed') ↔ Consistent (c :: claimed) := by
  rw [consistent_cons_iff]
  unfold claimSlot
  split
  · next hnone =>
    refine ⟨fun _ ↦ ⟨hclaimed, ?_⟩, fun _ ↦ ⟨_, rfl⟩⟩
    intro o ho hgroup hindex
    have hfree := List.find?_eq_none.mp hnone o ho
    simp [hgroup, hindex] at hfree
  · next first hfirst =>
    have hmem := List.mem_of_find?_eq_some hfirst
    have hslot : first.group = c.group ∧ first.index = c.index := by
      simpa using List.find?_some hfirst
    split
    · next hname =>
      refine ⟨fun _ ↦ ⟨hclaimed, ?_⟩, fun _ ↦ ⟨_, rfl⟩⟩
      intro o ho hgroup hindex
      rw [← hname]
      exact hclaimed o ho first hmem (hgroup.trans hslot.1.symm) (hindex.trans hslot.2.symm)
    · next hname =>
      constructor
      · rintro ⟨claimed', hok⟩
        cases hok
      · rintro ⟨-, hsame⟩
        exact (hname (hsame first hmem hslot.1 hslot.2)).elim

theorem Consistent.claimSlot {claimed claimed' : List Claim} (hclaimed : Consistent claimed)
    {c : Claim} (h : claimSlot claimed c = .ok claimed') : Consistent claimed' := by
  apply ((claimSlot_succeeds_iff hclaimed c).mp ⟨claimed', h⟩).mono
  intro o ho
  exact List.mem_cons.mpr ((claimSlot_eq_ok h o).mp ho)

theorem foldlM_claimSlot_eq_ok {cs claimed claimed' : List Claim}
    (h : cs.foldlM claimSlot claimed = .ok claimed') :
    ∀ o, o ∈ claimed' ↔ o ∈ cs ∨ o ∈ claimed := by
  induction cs generalizing claimed with
  | nil =>
      cases h
      simp
  | cons c cs ih =>
      rw [List.foldlM_cons] at h
      obtain ⟨first, hfirst, hrest⟩ := bind_eq_ok.mp h
      intro o
      rw [ih hrest o, claimSlot_eq_ok hfirst o, List.mem_cons]
      tauto

/-- Claims can be made together if they and the earlier ones are consistent. -/
theorem foldlM_claimSlot_succeeds_iff {cs claimed : List Claim} (hclaimed : Consistent claimed) :
    (∃ claimed', cs.foldlM claimSlot claimed = .ok claimed') ↔ Consistent (cs ++ claimed) := by
  induction cs generalizing claimed with
  | nil => exact ⟨fun _ ↦ hclaimed, fun _ ↦ ⟨claimed, rfl⟩⟩
  | cons c cs ih =>
      rw [List.foldlM_cons]
      constructor
      · rintro ⟨claimed', h⟩
        obtain ⟨first, hfirst, hrest⟩ := bind_eq_ok.mp h
        apply ((ih (hclaimed.claimSlot hfirst)).mp ⟨claimed', hrest⟩).mono
        intro o ho
        rw [List.mem_append, claimSlot_eq_ok hfirst o]
        rw [List.cons_append, List.mem_cons, List.mem_append] at ho
        tauto
      · intro hconsistent
        have hfirst : Consistent (c :: claimed) := by
          apply hconsistent.mono
          intro o ho
          rw [List.cons_append, List.mem_cons, List.mem_append]
          rw [List.mem_cons] at ho
          tauto
        obtain ⟨first, hfirst⟩ := (claimSlot_succeeds_iff hclaimed c).mpr hfirst
        have hrest : Consistent (cs ++ first) := by
          apply hconsistent.mono
          intro o ho
          rw [List.mem_append, claimSlot_eq_ok hfirst o] at ho
          rw [List.cons_append, List.mem_cons, List.mem_append]
          tauto
        obtain ⟨claimed', hclaimed'⟩ := (ih (hclaimed.claimSlot hfirst)).mpr hrest
        exact ⟨claimed', bind_eq_ok.mpr ⟨first, hfirst, hclaimed'⟩⟩

/-! ### Claims of requests -/

theorem claimRequest_eq_foldlM {r : BindingRequest} {i : Nat} (hi : r.index = some i)
    (h : ¬ r.Overflows) (claimed : List Claim) :
    claimRequest claimed r i = r.claims.foldlM claimSlot claimed := by
  by_cases hneed : r.need = .filteredTexture
  · have hlimit : i + 1 < indexLimit := by
      by_contra hle
      exact h ⟨hneed, i, hi, not_lt.mp hle⟩
    have hclaims : r.claims = [⟨r.group, i, r.name⟩, ⟨r.group, i + 1, r.name⟩] := by
      simp [BindingRequest.claims, BindingRequest.claimed, hi, hneed]
    rw [claimRequest, hclaims, List.foldlM_cons]
    refine bind_congr fun first ↦ ?_
    rw [if_pos hneed, if_pos hlimit]
    exact (bind_pure _).symm
  · simp [claimRequest, BindingRequest.claims, BindingRequest.claimed, hi, hneed]

theorem claimRequest_of_overflows {r : BindingRequest} {i : Nat} (hi : r.index = some i)
    (h : r.Overflows) (claimed claimed' : List Claim) :
    claimRequest claimed r i ≠ .ok claimed' := by
  obtain ⟨hneed, j, hj, hlimit⟩ := h
  obtain rfl : i = j := Option.some.inj (hi.symm.trans hj)
  intro hok
  obtain ⟨first, -, hrest⟩ := bind_eq_ok.mp hok
  rw [if_pos hneed, if_neg (not_lt.mpr hlimit)] at hrest
  cases hrest

theorem claimBindings_eq_foldlM {requests : List BindingRequest}
    (h : ∀ r ∈ requests, ¬ r.Overflows) (claimed : List Claim) :
    claimBindings claimed requests =
      (requests.flatMap BindingRequest.claims).foldlM claimSlot claimed := by
  induction requests generalizing claimed with
  | nil => rfl
  | cons r rest ih =>
      have hrest := ih fun s hs ↦ h s (List.mem_cons_of_mem r hs)
      rw [claimBindings, List.flatMap_cons, List.foldlM_append]
      split
      · next hnone =>
        have hclaims : r.claims = [] := by
          simp [BindingRequest.claims, BindingRequest.claimed, hnone]
        rw [hclaims, hrest]
        rfl
      · next i hi =>
        rw [claimRequest_eq_foldlM hi (h r List.mem_cons_self)]
        simp only [hrest]

theorem claimBindings_of_overflows {requests : List BindingRequest} {r : BindingRequest}
    (hr : r ∈ requests) (h : r.Overflows) (claimed claimed' : List Claim) :
    claimBindings claimed requests ≠ .ok claimed' := by
  induction requests generalizing claimed with
  | nil => cases hr
  | cons s rest ih =>
      intro hok
      rw [claimBindings] at hok
      split at hok
      · next hnone =>
        rcases List.mem_cons.mp hr with rfl | hrest
        · obtain ⟨-, i, hi, -⟩ := h
          rw [hnone] at hi
          cases hi
        · exact ih hrest claimed hok
      · next i hi =>
        obtain ⟨first, hfirst, hok⟩ := bind_eq_ok.mp hok
        rcases List.mem_cons.mp hr with rfl | hrest
        · exact claimRequest_of_overflows hi h claimed first hfirst
        · exact ih hrest first hok

theorem claimBindings_succeeds_iff (requests : List BindingRequest) :
    (∃ claimed, claimBindings [] requests = .ok claimed) ↔
      Consistent (requests.flatMap BindingRequest.claims) ∧ ∀ r ∈ requests, ¬ r.Overflows := by
  have hempty : Consistent [] := fun a ha ↦ by cases ha
  by_cases hlimit : ∀ r ∈ requests, ¬ r.Overflows
  · rw [claimBindings_eq_foldlM hlimit, foldlM_claimSlot_succeeds_iff hempty, List.append_nil]
    exact ⟨fun h ↦ ⟨h, hlimit⟩, fun h ↦ h.1⟩
  · constructor
    · rintro ⟨claimed, hok⟩
      refine (hlimit ?_).elim
      intro r hr hover
      exact claimBindings_of_overflows hr hover [] claimed hok
    · exact fun h ↦ (hlimit h.2).elim

theorem name_eq_of_mem_claims {r : BindingRequest} {c : Claim} (h : c ∈ r.claims) :
    c.name = r.name := by
  obtain ⟨slot, -, rfl⟩ := List.mem_map.mp h
  rfl

theorem claimed_of_mem_claims {r : BindingRequest} {c : Claim} (h : c ∈ r.claims) :
    (c.group, c.index) ∈ r.claimed := by
  obtain ⟨slot, hslot, rfl⟩ := List.mem_map.mp h
  exact hslot

/-- Requests with different names are consistent unless two of them claim a common slot. -/
theorem consistent_claims_iff {requests : List BindingRequest}
    (hnames : (requests.map BindingRequest.name).Nodup) :
    Consistent (requests.flatMap BindingRequest.claims) ↔
      ∀ r ∈ requests, ∀ s ∈ requests, r ≠ s → List.Disjoint r.claimed s.claimed := by
  constructor
  · intro h r hr s hs hne slot hslotr hslots
    have hname : r.name = s.name := by
      apply h ⟨slot.1, slot.2, r.name⟩ _ ⟨slot.1, slot.2, s.name⟩ _ rfl rfl
      · exact List.mem_flatMap.mpr ⟨r, hr, List.mem_map.mpr ⟨slot, hslotr, rfl⟩⟩
      · exact List.mem_flatMap.mpr ⟨s, hs, List.mem_map.mpr ⟨slot, hslots, rfl⟩⟩
    exact hne (List.inj_on_of_nodup_map hnames hr hs hname)
  · intro h a ha b hb hgroup hindex
    obtain ⟨r, hr, har⟩ := List.mem_flatMap.mp ha
    obtain ⟨s, hs, hbs⟩ := List.mem_flatMap.mp hb
    rw [name_eq_of_mem_claims har, name_eq_of_mem_claims hbs]
    by_contra hne
    have hslot : (a.group, a.index) ∈ s.claimed := by
      rw [hgroup, hindex]
      exact claimed_of_mem_claims hbs
    exact h r hr s hs (fun heq ↦ hne (heq ▸ rfl)) (claimed_of_mem_claims har) hslot

/-! ### Slots that are handed out -/

def Slots.points : Slots → List (Nat × Nat)
  | .buffer p => [(p.group, p.index)]
  | .texture t => (t.group, t.texture) :: t.object.toList.map fun i ↦ (t.group, i)

/-- What a resource gets has the shape of what it needs, in its group, and keeps an explicit
index. -/
def Fits (r : BindingRequest) (slots : Slots) : Prop :=
  match r.need, slots with
  | .buffer, .buffer p => p.group = r.group ∧ ∀ i, r.index = some i → p.index = i
  | .texture, .texture t =>
    t.group = r.group ∧ t.object = none ∧ ∀ i, r.index = some i → t.texture = i
  | .filteredTexture, .texture t =>
    t.group = r.group ∧ t.object.isSome ∧
      ∀ i, r.index = some i → t.texture = i ∧ t.object = some (i + 1)
  | _, _ => False

theorem fits_fillRequest (taken : List (Nat × Nat)) (r : BindingRequest) :
    Fits r (fillRequest taken r).1 := by
  obtain ⟨name, need, group, index⟩ := r
  cases index <;> cases need <;> simp [Fits, fillRequest]

theorem fillBindings_fits (taken : List (Nat × Nat)) (requests : List BindingRequest) :
    List.Forall₂ (fun r s ↦ s.1 = r.name ∧ Fits r s.2) requests (fillBindings taken requests) := by
  induction requests generalizing taken with
  | nil => exact .nil
  | cons r rest ih => exact .cons ⟨rfl, fits_fillRequest taken r⟩ (ih _)

theorem mem_takenIn {group i : Nat} {taken : List (Nat × Nat)} :
    i ∈ takenIn group taken ↔ (group, i) ∈ taken := by
  simp only [takenIn, List.mem_map, List.mem_filter, decide_eq_true_eq]
  constructor
  · rintro ⟨⟨g, j⟩, ⟨hmem, rfl⟩, rfl⟩
    exact hmem
  · intro hmem
    exact ⟨(group, i), ⟨hmem, rfl⟩, rfl⟩

def Need.size : Need → Nat
  | .filteredTexture => 2
  | _ => 1

theorem fillRequest_explicit {r : BindingRequest} {i : Nat} (hi : r.index = some i)
    (taken : List (Nat × Nat)) :
    (fillRequest taken r).1.points = r.claimed ∧ (fillRequest taken r).2 = [] := by
  obtain ⟨name, need, group, index⟩ := r
  cases hi
  cases need <;> exact ⟨rfl, rfl⟩

theorem fillRequest_automatic {r : BindingRequest} (h : r.index = none)
    (taken : List (Nat × Nat)) :
    (fillRequest taken r).1.points = (fillRequest taken r).2 ∧
      (fillRequest taken r).2 =
        (handOut r.need.size (takenIn r.group taken)).map fun i ↦ (r.group, i) := by
  obtain ⟨name, need, group, index⟩ := r
  cases h
  cases need <;> exact ⟨rfl, rfl⟩

theorem fillBindings_cons (taken : List (Nat × Nat)) (r : BindingRequest)
    (rest : List BindingRequest) : fillBindings taken (r :: rest) =
      (r.name, (fillRequest taken r).1) :: fillBindings ((fillRequest taken r).2 ++ taken) rest :=
  rfl

/-- No slot is given twice: an automatic slot is none of the claimed ones, and none of those given
before. -/
theorem nodup_points_fillBindings {requests : List BindingRequest} {taken : List (Nat × Nat)}
    (hnodup : (requests.flatMap BindingRequest.claimed).Nodup)
    (hsubset : requests.flatMap BindingRequest.claimed ⊆ taken) :
    ((fillBindings taken requests).flatMap (·.2.points)).Nodup ∧
      ∀ slot ∈ (fillBindings taken requests).flatMap (·.2.points),
        slot ∈ requests.flatMap BindingRequest.claimed ∨ slot ∉ taken := by
  induction requests generalizing taken with
  | nil => exact ⟨List.nodup_nil, fun slot hslot ↦ by cases hslot⟩
  | cons r rest ih =>
      rw [List.flatMap_cons] at hnodup hsubset ⊢
      rw [fillBindings_cons, List.flatMap_cons]
      obtain ⟨hr, hrest, hdisjoint⟩ := List.nodup_append'.mp hnodup
      have hclaimed : r.claimed ⊆ taken := fun x hx ↦ hsubset (List.mem_append_left _ hx)
      have hlater : rest.flatMap BindingRequest.claimed ⊆ taken :=
        fun x hx ↦ hsubset (List.mem_append_right _ hx)
      cases hindex : r.index with
      | some i =>
          obtain ⟨hpoints, hfresh⟩ := fillRequest_explicit hindex taken
          rw [hpoints, hfresh, List.nil_append]
          obtain ⟨hnodup, hmem⟩ := ih hrest hlater
          refine ⟨List.nodup_append'.mpr ⟨hr, hnodup, ?_⟩, ?_⟩
          · intro x hx hxlater
            rcases hmem x hxlater with hxrest | hxfree
            · exact hdisjoint hx hxrest
            · exact hxfree (hclaimed hx)
          · intro x hx
            rcases List.mem_append.mp hx with hxr | hxlater
            · exact .inl (List.mem_append_left _ hxr)
            · exact (hmem x hxlater).imp_left (List.mem_append_right _)
      | none =>
          obtain ⟨hpoints, hfresh⟩ := fillRequest_automatic hindex taken
          have hfree : ∀ x ∈ (fillRequest taken r).2, x ∉ taken := by
            rw [hfresh]
            intro x hx
            obtain ⟨i, hi, rfl⟩ := List.mem_map.mp hx
            exact fun htaken ↦ notMem_of_mem_handOut hi (mem_takenIn.mpr htaken)
          have hpair : Function.Injective fun i : Nat ↦ (r.group, i) :=
            fun i j hij ↦ (Prod.mk.inj hij).2
          have hfreshnodup : (fillRequest taken r).2.Nodup := by
            rw [hfresh]
            exact (nodup_handOut _ _).map hpair
          obtain ⟨hnodup, hmem⟩ := ih hrest (List.subset_append_of_subset_right _ hlater)
          rw [hpoints]
          refine ⟨List.nodup_append'.mpr ⟨hfreshnodup, hnodup, ?_⟩, ?_⟩
          · intro x hx hxlater
            rcases hmem x hxlater with hxrest | hxfree
            · exact hfree x hx (hlater hxrest)
            · exact hxfree (List.mem_append_left _ hx)
          · intro x hx
            rcases List.mem_append.mp hx with hxr | hxlater
            · exact .inr (hfree x hxr)
            · rcases hmem x hxlater with hxrest | hxfree
              · exact .inl (List.mem_append_right _ hxrest)
              · exact .inr fun htaken ↦ hxfree (List.mem_append_right _ htaken)

/-- The indices of the automatic slots of a group, in the order of the requests. -/
def automaticIn (group : Nat) : List BindingRequest → List (String × Slots) → List Nat
  | r :: rs, s :: ss =>
    (if r.index = none ∧ r.group = group then s.2.points.map Prod.snd else []) ++
      automaticIn group rs ss
  | _, _ => []

/-- Automatic slots go on with the numbers outside `base` where the earlier ones ended. -/
theorem automaticIn_fillBindings {group k : Nat} {base : List Nat} {taken : List (Nat × Nat)}
    (requests : List BindingRequest) (h : Handed base k (takenIn group taken)) :
    ∃ n, automaticIn group requests (fillBindings taken requests) =
      (List.range' k n).map (Nat.nth (· ∉ base)) := by
  induction requests generalizing k taken with
  | nil => exact ⟨0, rfl⟩
  | cons r rest ih =>
      rw [fillBindings_cons, automaticIn]
      cases hindex : r.index with
      | some i =>
          obtain ⟨-, hfresh⟩ := fillRequest_explicit hindex taken
          rw [if_neg (by simp), hfresh]
          exact ih h
      | none =>
          obtain ⟨hpoints, hfresh⟩ := fillRequest_automatic hindex taken
          by_cases hgroup : r.group = group
          · subst hgroup
            have hnext : Handed base (k + r.need.size)
                (takenIn r.group ((fillRequest taken r).2 ++ taken)) := by
              intro m
              rw [← h.append_handOut r.need.size m, mem_takenIn, List.mem_append, List.mem_append,
                mem_takenIn, hfresh]
              simp
            obtain ⟨n, hn⟩ := ih hnext
            refine ⟨r.need.size + n, ?_⟩
            rw [if_pos ⟨rfl, rfl⟩, hpoints, hfresh, List.map_map, ← hfresh, hn,
              ← List.range'_append_1, List.map_append, ← h.handOut_eq]
            simp
          · have hnext : Handed base k (takenIn group ((fillRequest taken r).2 ++ taken)) := by
              intro m
              rw [← h m, mem_takenIn, mem_takenIn, List.mem_append, hfresh]
              simp [hgroup]
            rw [if_neg fun hr ↦ hgroup hr.2]
            exact ih hnext

/-! ### Allocation -/

/-- Two requests claim a common slot. -/
def Collide (requests : List BindingRequest) : Prop :=
  ∃ r ∈ requests, ∃ s ∈ requests, r ≠ s ∧ ∃ slot ∈ r.claimed, slot ∈ s.claimed

/-- What is handed out for requests. -/
structure Assigned (requests : List BindingRequest) (slots : List (String × Slots)) : Prop where
  fits : List.Forall₂ (fun r s ↦ s.1 = r.name ∧ Fits r s.2) requests slots
  nodup : (slots.flatMap (·.2.points)).Nodup
  /-- The `k`-th automatic slot of a group is the `k`-th number that is not claimed in it. -/
  automatic : ∀ group k index, (automaticIn group requests slots)[k]? = some index →
    index = Nat.nth (· ∉ takenIn group (requests.flatMap BindingRequest.claimed)) k

theorem Assigned.exists_mem {requests : List BindingRequest} {slots : List (String × Slots)}
    (h : Assigned requests slots) {r : BindingRequest} (hr : r ∈ requests) :
    ∃ s, (r.name, s) ∈ slots ∧ Fits r s := by
  have hfits := h.fits
  clear h
  induction hfits with
  | nil => cases hr
  | @cons r' s _ _ hs _ ih =>
      rcases List.mem_cons.mp hr with rfl | hr
      · exact ⟨s.2, by rw [← hs.1]; exact List.mem_cons_self, hs.2⟩
      · obtain ⟨s', hs', hfit⟩ := ih hr
        exact ⟨s', List.mem_cons_of_mem _ hs', hfit⟩

theorem Assigned.names {requests : List BindingRequest} {slots : List (String × Slots)}
    (h : Assigned requests slots) : slots.map Prod.fst = requests.map BindingRequest.name := by
  have hfits := h.fits
  clear h
  induction hfits with
  | nil => rfl
  | cons hs _ ih => rw [List.map_cons, List.map_cons, hs.1, ih]

theorem allocateBindings_succeeds_iff {requests : List BindingRequest}
    (hnames : (requests.map BindingRequest.name).Nodup) :
    (∃ slots, allocateBindings requests = .ok slots) ↔
      ¬ Collide requests ∧ ∀ r ∈ requests, ¬ r.Overflows := by
  have hok : (∃ slots, allocateBindings requests = .ok slots) ↔
      ∃ claimed, claimBindings [] requests = .ok claimed := by
    constructor
    · rintro ⟨slots, hslots⟩
      obtain ⟨claimed, hclaimed, -⟩ := bind_eq_ok.mp hslots
      exact ⟨claimed, hclaimed⟩
    · rintro ⟨claimed, hclaimed⟩
      exact ⟨_, bind_eq_ok.mpr ⟨claimed, hclaimed, rfl⟩⟩
  rw [hok, claimBindings_succeeds_iff, consistent_claims_iff hnames]
  apply and_congr_left'
  constructor
  · rintro h ⟨r, hr, s, hs, hne, slot, hslotr, hslots⟩
    exact h r hr s hs hne hslotr hslots
  · intro h r hr s hs hne slot hslotr hslots
    exact h ⟨r, hr, s, hs, hne, slot, hslotr, hslots⟩

theorem nodup_claimed (r : BindingRequest) : r.claimed.Nodup := by
  unfold BindingRequest.claimed
  split
  · exact List.nodup_nil
  · split <;> simp

theorem nodup_flatMap_claimed {requests : List BindingRequest}
    (hnames : (requests.map BindingRequest.name).Nodup) (h : ¬ Collide requests) :
    (requests.flatMap BindingRequest.claimed).Nodup := by
  rw [List.nodup_flatMap]
  refine ⟨fun r _ ↦ nodup_claimed r, ?_⟩
  apply hnames.of_map.imp_of_mem
  intro r s hr hs hne slot hslotr hslots
  exact h ⟨r, hr, s, hs, hne, slot, hslotr, hslots⟩

theorem assigned_of_allocateBindings {requests : List BindingRequest}
    (hnames : (requests.map BindingRequest.name).Nodup) {slots : List (String × Slots)}
    (h : allocateBindings requests = .ok slots) : Assigned requests slots := by
  obtain ⟨hcollide, hlimit⟩ := (allocateBindings_succeeds_iff hnames).mp ⟨slots, h⟩
  obtain ⟨claimed, hclaimed, hslots⟩ := bind_eq_ok.mp h
  cases hslots
  have htaken : ∀ slot, slot ∈ claimed.map (fun c ↦ (c.group, c.index)) ↔
      slot ∈ requests.flatMap BindingRequest.claimed := by
    rw [claimBindings_eq_foldlM hlimit] at hclaimed
    have hmem := foldlM_claimSlot_eq_ok hclaimed
    intro slot
    simp only [List.mem_map, hmem, List.not_mem_nil, or_false, List.mem_flatMap,
      BindingRequest.claims]
    aesop
  have hnodup := nodup_flatMap_claimed hnames hcollide
  refine ⟨fillBindings_fits _ requests, ?_, ?_⟩
  · exact (nodup_points_fillBindings hnodup fun slot hslot ↦ (htaken slot).mpr hslot).1
  · intro group k index hk
    have hhanded : Handed (takenIn group (requests.flatMap BindingRequest.claimed)) 0
        (takenIn group (claimed.map fun c ↦ (c.group, c.index))) := by
      apply handed_zero
      intro m
      rw [mem_takenIn, mem_takenIn, htaken]
    obtain ⟨n, hn⟩ := automaticIn_fillBindings requests hhanded
    rw [hn, List.getElem?_map, Option.map_eq_some_iff] at hk
    obtain ⟨i, hi, rfl⟩ := hk
    obtain ⟨hlt, rfl⟩ := List.getElem?_eq_some_iff.mp hi
    simp

end Shading.Layout
