import Mathlib.Data.Nat.Nth
import Mathlib.Data.Set.Finite.Lattice
import Shading.Layout.Slots

/-!
# Free numbers

Numbers that are handed out one after the other, each the lowest free one, are the numbers outside
the ones that were taken at the start, in ascending order.
-/

namespace Shading.Layout

/-- Among the first values of an injective sequence, one more than are taken, there is a first free
one. -/
theorem exists_find?_free {α : Type} [DecidableEq α] {f : Nat → α} (hf : Function.Injective f)
    (taken : List α) :
    ∃ n, (List.range (taken.length + 1)).find? (fun m ↦ f m ∉ taken) = some n ∧ f n ∉ taken ∧
      ∀ m < n, f m ∈ taken := by
  have hsome : ((List.range (taken.length + 1)).find? (fun m ↦ f m ∉ taken)).isSome = true := by
    by_contra hnone
    have hsubset : (List.range (taken.length + 1)).map f ⊆ taken := by
      intro a ha
      obtain ⟨n, hn, rfl⟩ := List.mem_map.mp ha
      by_contra hfree
      exact hnone (List.find?_isSome.mpr ⟨n, hn, by simpa using hfree⟩)
    have hlength := ((List.nodup_range.map hf).subperm hsubset).length_le
    rw [List.length_map, List.length_range] at hlength
    omega
  obtain ⟨n, hn⟩ := Option.isSome_iff_exists.mp hsome
  obtain ⟨hfree, -, hbelow⟩ := List.find?_range_eq_some.mp hn
  refine ⟨n, hn, by simpa using hfree, ?_⟩
  intro m hm
  simpa using hbelow m hm

theorem lowestFree_spec (taken : List Nat) :
    lowestFree taken ∉ taken ∧ ∀ m < lowestFree taken, m ∈ taken := by
  obtain ⟨n, hn, hfree, hbelow⟩ := exists_find?_free Function.injective_id taken
  have hlowest : lowestFree taken = n := by
    rw [lowestFree]
    exact congrArg (Option.getD · 0) hn
  rw [hlowest]
  exact ⟨hfree, hbelow⟩

theorem infinite_outside (base : List Nat) : {n | n ∉ base}.Infinite := by
  have hfinite : {n | n ∈ base}.Finite := List.finite_toSet base
  exact hfinite.infinite_compl

/-- The first `k` numbers outside `base` are handed out, and nothing else is taken. -/
def Handed (base : List Nat) (k : Nat) (taken : List Nat) : Prop :=
  ∀ m, m ∈ taken ↔ m ∈ base ∨ ∃ i < k, m = Nat.nth (· ∉ base) i

theorem handed_zero {base taken : List Nat} (h : ∀ m, m ∈ taken ↔ m ∈ base) :
    Handed base 0 taken := by
  intro m
  rw [h m]
  simp

/-- The lowest free number is the next one outside `base`. -/
theorem Handed.lowestFree_eq {base taken : List Nat} {k : Nat} (h : Handed base k taken) :
    lowestFree taken = Nat.nth (· ∉ base) k := by
  have hinfinite := infinite_outside base
  obtain ⟨hfree, hbelow⟩ := lowestFree_spec taken
  have hbase : lowestFree taken ∉ base := fun hb ↦ hfree ((h _).mpr (.inl hb))
  apply le_antisymm
  · -- A number below the lowest free one is taken, and the `k`-th is not.
    by_contra hlt
    rcases (h _).mp (hbelow _ (not_le.mp hlt)) with hmem | ⟨i, hi, heq⟩
    · exact Nat.nth_mem_of_infinite hinfinite k hmem
    · exact hi.ne' (Nat.nth_injective hinfinite heq)
  · -- The lowest free number is itself one outside `base`, and none of the first `k`.
    have hnth : Nat.nth (· ∉ base) (Nat.count (· ∉ base) (lowestFree taken)) = lowestFree taken :=
      Nat.nth_count hbase
    have hcount : k ≤ Nat.count (· ∉ base) (lowestFree taken) := by
      by_contra hlt
      exact hfree ((h _).mpr (.inr ⟨_, not_le.mp hlt, hnth.symm⟩))
    rw [← hnth]
    exact Nat.nth_monotone hinfinite hcount

theorem Handed.cons {base taken : List Nat} {k : Nat} (h : Handed base k taken) :
    Handed base (k + 1) (lowestFree taken :: taken) := by
  intro m
  rw [List.mem_cons, h m, h.lowestFree_eq]
  constructor
  · rintro (hm | hm | ⟨i, hi, hm⟩)
    · exact .inr ⟨k, Nat.lt_succ_self k, hm⟩
    · exact .inl hm
    · exact .inr ⟨i, hi.trans (Nat.lt_succ_self k), hm⟩
  · rintro (hm | ⟨i, hi, hm⟩)
    · exact .inr (.inl hm)
    · rcases Nat.lt_succ_iff_lt_or_eq.mp hi with hlt | rfl
      · exact .inr (.inr ⟨i, hlt, hm⟩)
      · exact .inl hm

/-! ### Handing out several numbers -/

def handOut : Nat → List Nat → List Nat
  | 0, _ => []
  | n + 1, taken => lowestFree taken :: handOut n (lowestFree taken :: taken)

theorem Handed.handOut_eq {base taken : List Nat} {k : Nat} (h : Handed base k taken) (n : Nat) :
    handOut n taken = (List.range' k n).map (Nat.nth (· ∉ base)) := by
  induction n generalizing k taken with
  | zero => rfl
  | succ n ih => rw [handOut, ih h.cons, h.lowestFree_eq, List.range'_succ, List.map_cons]

theorem Handed.append_handOut {base taken : List Nat} {k : Nat} (h : Handed base k taken)
    (n : Nat) : Handed base (k + n) (handOut n taken ++ taken) := by
  intro m
  rw [List.mem_append, h m, h.handOut_eq, List.mem_map]
  constructor
  · rintro (⟨i, hi, rfl⟩ | hm | ⟨i, hi, hm⟩)
    · exact .inr ⟨i, (List.mem_range'_1.mp hi).2, rfl⟩
    · exact .inl hm
    · exact .inr ⟨i, Nat.lt_add_right n hi, hm⟩
  · rintro (hm | ⟨i, hi, hm⟩)
    · exact .inr (.inl hm)
    · by_cases hik : i < k
      · exact .inr (.inr ⟨i, hik, hm⟩)
      · exact .inl ⟨i, List.mem_range'_1.mpr ⟨not_lt.mp hik, hi⟩, hm.symm⟩

theorem nodup_handOut (n : Nat) (taken : List Nat) : (handOut n taken).Nodup := by
  rw [(handed_zero fun _ ↦ Iff.rfl).handOut_eq n]
  exact (List.nodup_range' 1).map (Nat.nth_injective (infinite_outside taken))

theorem notMem_of_mem_handOut {n m : Nat} {taken : List Nat} (h : m ∈ handOut n taken) :
    m ∉ taken := by
  rw [(handed_zero fun _ ↦ Iff.rfl).handOut_eq n] at h
  obtain ⟨i, -, rfl⟩ := List.mem_map.mp h
  exact Nat.nth_mem_of_infinite (infinite_outside taken) i

end Shading.Layout
