/-!
# Ordered sets

Finite sets that remember the order in which their members were first inserted.
-/

namespace Shading

structure OrderedSet (α : Type) where
  toList : List α
  nodup : toList.Nodup

namespace OrderedSet

variable {α : Type} [DecidableEq α]

def empty : OrderedSet α :=
  ⟨[], List.nodup_nil⟩

instance : Membership α (OrderedSet α) := ⟨fun s a ↦ a ∈ s.toList⟩

instance (a : α) (s : OrderedSet α) : Decidable (a ∈ s) :=
  inferInstanceAs (Decidable (a ∈ s.toList))

def isEmpty (s : OrderedSet α) : Bool :=
  s.toList.isEmpty

/-- Add a member at the end; a member already there keeps its place. -/
def insert (s : OrderedSet α) (a : α) : OrderedSet α :=
  if h : a ∈ s.toList then s
  else
    ⟨s.toList ++ [a], by
      rw [List.nodup_append]
      refine ⟨s.nodup, by simp, ?_⟩
      intro x hx y hy
      rw [List.mem_singleton] at hy
      exact fun hxy ↦ h (hy ▸ hxy ▸ hx)⟩

def insertAll (s : OrderedSet α) (items : List α) : OrderedSet α :=
  items.foldl insert s

/-- The members of `s`, then those of `t` that are not in `s`. -/
def union (s t : OrderedSet α) : OrderedSet α :=
  s.insertAll t.toList

/-! ### Members -/

omit [DecidableEq α] in
theorem mem_def {a : α} {s : OrderedSet α} : a ∈ s ↔ a ∈ s.toList :=
  Iff.rfl

omit [DecidableEq α] in
@[simp] theorem notMem_empty (a : α) : a ∉ (empty : OrderedSet α) :=
  List.not_mem_nil

theorem insert_of_mem {s : OrderedSet α} {a : α} (h : a ∈ s) : s.insert a = s :=
  dif_pos h

theorem toList_insert_of_notMem {s : OrderedSet α} {a : α} (h : a ∉ s) :
    (s.insert a).toList = s.toList ++ [a] := by
  have hn : a ∉ s.toList := h
  rw [insert, dif_neg hn]

@[simp] theorem mem_insert {s : OrderedSet α} {a b : α} : b ∈ s.insert a ↔ b ∈ s ∨ b = a := by
  by_cases h : a ∈ s
  · rw [insert_of_mem h]
    exact ⟨Or.inl, fun hb ↦ hb.elim id fun hba ↦ hba ▸ h⟩
  · rw [mem_def, toList_insert_of_notMem h, List.mem_append, List.mem_singleton, mem_def]

@[simp] theorem mem_insertAll {s : OrderedSet α} {items : List α} {b : α} :
    b ∈ s.insertAll items ↔ b ∈ s ∨ b ∈ items := by
  induction items generalizing s with
  | nil => simp [insertAll]
  | cons a rest ih =>
    have step : s.insertAll (a :: rest) = (s.insert a).insertAll rest := rfl
    rw [step, ih, mem_insert, List.mem_cons, or_assoc]

@[simp] theorem mem_union {s t : OrderedSet α} {b : α} : b ∈ s.union t ↔ b ∈ s ∨ b ∈ t :=
  mem_insertAll

end OrderedSet

end Shading
