import Mathlib.Data.List.Infix
import Mathlib.Data.List.Nodup
import Shading.Emission

/-!
# Struct definitions and what they nest

A struct definition is a tree of definitions.  Its list of dependencies has one definition for every
name in the tree, the first one that is met.  If definitions of the same name in the tree are equal,
these are all the definitions in it.
-/

namespace Shading

/-! ### Trees of definitions -/

mutual

/-- All definitions that occur in a definition, nested at any depth, and the definition itself at
the end. -/
def StructDef.within : StructDef → List StructDef
  | .mk n fs => Field.withinAll fs ++ [.mk n fs]

def Field.withinAll : List Field → List StructDef
  | [] => []
  | f :: fs => Field.within f ++ Field.withinAll fs

def Field.within : Field → List StructDef
  | .value .. => []
  | .nested _ s _ => StructDef.within s

end

theorem Field.mem_withinAll {d : StructDef} {fs : List Field} :
    d ∈ withinAll fs ↔ ∃ n s l, .nested n s l ∈ fs ∧ d ∈ s.within := by
  induction fs with
  | nil => simp [withinAll]
  | cons f fs ih =>
      rw [withinAll, List.mem_append, ih]
      cases f with
      | value n t => simp [within]
      | nested n s l =>
          rw [within]
          constructor
          · rintro (hd | ⟨n', s', l', hmem, hd⟩)
            · exact ⟨n, s, l, List.mem_cons_self, hd⟩
            · exact ⟨n', s', l', List.mem_cons_of_mem _ hmem, hd⟩
          · rintro ⟨n', s', l', hmem, hd⟩
            rcases List.mem_cons.mp hmem with heq | hmem
            · cases heq
              exact .inl hd
            · exact .inr ⟨n', s', l', hmem, hd⟩

namespace StructDef

theorem mem_within_self (s : StructDef) : s ∈ s.within := by
  obtain ⟨n, fs⟩ := s
  rw [within]
  exact List.mem_append_right _ List.mem_cons_self

/-- What occurs in a definition is the definition or occurs in one of its fields. -/
theorem mem_within_iff {d s : StructDef} :
    d ∈ s.within ↔ d = s ∨ ∃ n t l, .nested n t l ∈ s.fields ∧ d ∈ t.within := by
  obtain ⟨n, fs⟩ := s
  rw [within, List.mem_append, List.mem_singleton, Field.mem_withinAll, or_comm]
  rfl

theorem within_nested {s t : StructDef} {n : String} {l : Option Nat}
    (h : .nested n t l ∈ s.fields) : t ∈ s.within :=
  mem_within_iff.mpr (.inr ⟨n, t, l, h, t.mem_within_self⟩)

end StructDef

mutual

theorem StructDef.sizeOf_within (d : StructDef) :
    ∀ s : StructDef, d ∈ s.within → sizeOf d ≤ sizeOf s
  | .mk n fs => by
      intro hd
      rw [StructDef.within, List.mem_append, List.mem_singleton] at hd
      rcases hd with hd | rfl
      · have hfields := Field.sizeOf_withinAll d fs hd
        simp only [StructDef.mk.sizeOf_spec]
        omega
      · exact Nat.le_refl _

theorem Field.sizeOf_withinAll (d : StructDef) :
    ∀ fs : List Field, d ∈ Field.withinAll fs → sizeOf d < sizeOf fs
  | [] => by
      intro hd
      cases hd
  | f :: fs => by
      intro hd
      simp only [List.cons.sizeOf_spec]
      rcases List.mem_append.mp hd with hd | hd
      · have hfield := Field.sizeOf_within d f hd
        omega
      · have hfields := Field.sizeOf_withinAll d fs hd
        omega

theorem Field.sizeOf_within (d : StructDef) :
    ∀ f : Field, d ∈ Field.within f → sizeOf d < sizeOf f
  | .value n t => by
      intro hd
      cases hd
  | .nested n s l => by
      intro hd
      have hstruct := StructDef.sizeOf_within d s hd
      simp only [Field.nested.sizeOf_spec]
      omega

end

namespace StructDef

theorem sizeOf_nested {s t : StructDef} {n : String} {l : Option Nat}
    (h : .nested n t l ∈ s.fields) : sizeOf t < sizeOf s := by
  obtain ⟨m, fs⟩ := s
  have hmem : t ∈ Field.withinAll fs := Field.mem_withinAll.mpr ⟨n, t, l, h, t.mem_within_self⟩
  have hsize := Field.sizeOf_withinAll t fs hmem
  simp only [mk.sizeOf_spec]
  omega

theorem within_trans {d t s : StructDef} (hd : d ∈ t.within) (ht : t ∈ s.within) :
    d ∈ s.within := by
  rcases mem_within_iff.mp ht with rfl | ⟨n, e, l, hmem, ht⟩
  · exact hd
  · have hsize := sizeOf_nested hmem
    exact mem_within_iff.mpr (.inr ⟨n, e, l, hmem, within_trans hd ht⟩)
termination_by sizeOf s

end StructDef

/-! ### Lists with one definition for every name -/

/-- The result lists what was known and after it some of the given definitions, so that every given
name is listed. -/
structure StructDef.Gathers (known given result : List StructDef) : Prop where
  grows : ∃ new, result = known ++ new ∧ ∀ d ∈ new, d ∈ given
  listed : ∀ d ∈ given, ∃ d' ∈ result, d'.name = d.name
  nodup : (known.map StructDef.name).Nodup → (result.map StructDef.name).Nodup

namespace StructDef.Gathers

variable {known given given' result result' : List StructDef}

theorem refl (known : List StructDef) : Gathers known [] known where
  grows := ⟨[], (List.append_nil known).symm, fun _ hd ↦ hd⟩
  listed _ hd := by cases hd
  nodup := id

theorem trans (h : Gathers known given result) (h' : Gathers result given' result') :
    Gathers known (given ++ given') result' where
  grows := by
    obtain ⟨new, rfl, hnew⟩ := h.grows
    obtain ⟨new', rfl, hnew'⟩ := h'.grows
    refine ⟨new ++ new', List.append_assoc known new new', fun d hd ↦ ?_⟩
    rcases List.mem_append.mp hd with hd | hd
    · exact List.mem_append_left _ (hnew d hd)
    · exact List.mem_append_right _ (hnew' d hd)
  listed d hd := by
    rcases List.mem_append.mp hd with hd | hd
    · obtain ⟨d', hd', hname⟩ := h.listed d hd
      obtain ⟨new, rfl, -⟩ := h'.grows
      exact ⟨d', List.mem_append_left _ hd', hname⟩
    · exact h'.listed d hd
  nodup := h'.nodup ∘ h.nodup

/-- A definition is put at the end unless its name is listed. -/
theorem insert (known : List StructDef) (s : StructDef) :
    Gathers known [s] (if known.any (·.name == s.name) then known else known ++ [s]) := by
  split
  · next hknown =>
      obtain ⟨d, hd, hname⟩ := List.any_eq_true.mp hknown
      refine ⟨⟨[], (List.append_nil known).symm, fun _ h ↦ by cases h⟩, fun e he ↦ ?_, id⟩
      cases List.mem_singleton.mp he
      exact ⟨d, hd, eq_of_beq hname⟩
  · next hnew =>
      refine ⟨⟨[s], rfl, fun _ h ↦ h⟩, fun e he ↦ ?_, fun hnodup ↦ ?_⟩
      · exact ⟨e, List.mem_append_right _ he, rfl⟩
      · rw [List.map_append, List.nodup_append]
        refine ⟨hnodup, List.nodup_singleton _, ?_⟩
        rintro name hname _ hs rfl
        cases List.mem_singleton.mp hs
        obtain ⟨d, hd, hname⟩ := List.mem_map.mp hname
        exact hnew (List.any_eq_true.mpr ⟨d, hd, beq_iff_eq.mpr hname⟩)

theorem mem (h : Gathers known given result) {d : StructDef} (hd : d ∈ result) :
    d ∈ known ∨ d ∈ given := by
  obtain ⟨new, rfl, hnew⟩ := h.grows
  exact (List.mem_append.mp hd).imp id (hnew d)

theorem mem_names (h : Gathers known given result) {n : String} :
    n ∈ result.map name ↔ n ∈ known.map name ∨ n ∈ given.map name := by
  rw [List.mem_map, List.mem_map, List.mem_map]
  constructor
  · rintro ⟨d, hd, rfl⟩
    exact (h.mem hd).imp (fun hd ↦ ⟨d, hd, rfl⟩) fun hd ↦ ⟨d, hd, rfl⟩
  · rintro (⟨d, hd, rfl⟩ | ⟨d, hd, rfl⟩)
    · obtain ⟨new, rfl, -⟩ := h.grows
      exact ⟨d, List.mem_append_left new hd, rfl⟩
    · exact h.listed d hd

/-- If names determine definitions, everything given is listed. -/
theorem mem_of_given (h : Gathers known given result) {d : StructDef} (hd : d ∈ given)
    (hsame : ∀ d', d' ∈ known ∨ d' ∈ given → d'.name = d.name → d' = d) : d ∈ result := by
  obtain ⟨d', hd', hname⟩ := h.listed d hd
  exact hsame d' (h.mem hd') hname ▸ hd'

end StructDef.Gathers

mutual

theorem StructDef.gathers_collect (known : List StructDef) :
    ∀ s : StructDef, StructDef.Gathers known s.within (s.collect known)
  | .mk n fs => (Field.gathers_collectAll known fs).trans (.insert _ (.mk n fs))

theorem Field.gathers_collectAll (known : List StructDef) :
    ∀ fs : List Field, StructDef.Gathers known (Field.withinAll fs) (Field.collectAll known fs)
  | [] => .refl known
  | f :: fs => (Field.gathers_collect known f).trans (Field.gathers_collectAll _ fs)

theorem Field.gathers_collect (known : List StructDef) :
    ∀ f : Field, StructDef.Gathers known (Field.within f) (Field.collect known f)
  | .value .. => .refl known
  | .nested _ s _ => StructDef.gathers_collect known s

end

namespace StructDef

theorem gathers_merge (known more : List StructDef) : Gathers known more (merge known more) := by
  induction more generalizing known with
  | nil => exact .refl known
  | cons s more ih => exact (Gathers.insert known s).trans (ih _)

theorem gathers_withDependencies (s : StructDef) : Gathers [] s.within s.withDependencies :=
  gathers_collect [] s

theorem mem_within_of_withDependencies {d s : StructDef} (h : d ∈ s.withDependencies) :
    d ∈ s.within :=
  (s.gathers_withDependencies.mem h).resolve_left List.not_mem_nil

theorem nodup_withDependencies (s : StructDef) : (s.withDependencies.map name).Nodup :=
  s.gathers_withDependencies.nodup List.nodup_nil

/-- Merging lists one after the other is merging all of them at once. -/
theorem foldl_merge {α : Type} (f : α → List StructDef) (known : List StructDef) (items : List α) :
    items.foldl (fun known a ↦ merge known (f a)) known = merge known (items.flatMap f) :=
  List.foldl_flatMap.symm

/-! ### Names that determine definitions -/

/-- Definitions of the same name are equal. -/
def Coherent (structs : List StructDef) : Prop :=
  ∀ d ∈ structs, ∀ d' ∈ structs, d.name = d'.name → d = d'

theorem Coherent.mono {structs structs' : List StructDef} (h : Coherent structs)
    (hmem : ∀ d ∈ structs', d ∈ structs) : Coherent structs' :=
  fun d hd d' hd' ↦ h d (hmem d hd) d' (hmem d' hd')

instance (structs : List StructDef) : Decidable (Coherent structs) :=
  inferInstanceAs (Decidable (∀ d ∈ structs, ∀ d' ∈ structs, _))

theorem mem_withDependencies {d s : StructDef} (h : Coherent s.within) :
    d ∈ s.withDependencies ↔ d ∈ s.within := by
  refine ⟨mem_within_of_withDependencies, fun hd ↦ ?_⟩
  apply s.gathers_withDependencies.mem_of_given hd
  intro d' hd' hname
  exact h d' (hd'.resolve_left List.not_mem_nil) d hd hname

/-- The definition itself is the last one listed. -/
theorem exists_withDependencies_eq {s : StructDef} (h : Coherent s.within) :
    ∃ inner, s.withDependencies = inner ++ [s] ∧
      ∀ d, d ∈ inner ↔ ∃ n t l, .nested n t l ∈ s.fields ∧ d ∈ t.within := by
  have hmem := fun d : StructDef ↦ mem_withDependencies (d := d) h
  obtain ⟨n, fs⟩ := s
  -- A nested definition of the same name would be the definition itself, which is too large.
  have hsmaller : ∀ d ∈ Field.withinAll fs, d.name ≠ n := by
    intro d hd hname
    have hd' : d ∈ (mk n fs).within := List.mem_append_left _ hd
    cases h d hd' (mk n fs) (mem_within_self _) hname
    have hsize := Field.sizeOf_withinAll _ fs hd
    simp only [mk.sizeOf_spec] at hsize
    omega
  have hnew : ¬ (Field.collectAll [] fs).any (·.name == n) = true := by
    intro hany
    obtain ⟨d, hd, hname⟩ := List.any_eq_true.mp hany
    have hd := ((Field.gathers_collectAll [] fs).mem hd).resolve_left List.not_mem_nil
    exact hsmaller d hd (eq_of_beq hname)
  have hlist : (mk n fs).withDependencies = Field.collectAll [] fs ++ [mk n fs] := by
    rw [withDependencies, collect]
    exact if_neg hnew
  refine ⟨_, hlist, fun d ↦ ?_⟩
  rw [fields, ← Field.mem_withinAll]
  constructor
  · intro hd
    exact ((Field.gathers_collectAll [] fs).mem hd).resolve_left List.not_mem_nil
  · intro hd
    have hd' := (hmem d).mpr (List.mem_append_left _ hd)
    rw [hlist] at hd'
    refine (List.mem_append.mp hd').resolve_right fun hself ↦ ?_
    cases List.mem_singleton.mp hself
    exact hsmaller _ hd rfl

end StructDef

end Shading
