/-!
# Tables

Finite maps from names that remember the order in which their names were added.  An entry is never
removed, and a name that is present is never added again.
-/

namespace Shading

structure Table (α : Type) where
  entries : List (String × α)
  nodup : (entries.map Prod.fst).Nodup

namespace Table

variable {α : Type}

def empty : Table α :=
  ⟨[], List.nodup_nil⟩

def keys (t : Table α) : List String :=
  t.entries.map Prod.fst

def get? (t : Table α) (name : String) : Option α :=
  (t.entries.find? (·.1 == name)).map Prod.snd

def contains (t : Table α) (name : String) : Bool :=
  t.entries.any (·.1 == name)

def size (t : Table α) : Nat :=
  t.entries.length

/-- Add an entry at the end, unless the name is present. -/
def add (t : Table α) (name : String) (value : α) : Table α :=
  if h : name ∈ t.entries.map Prod.fst then t
  else
    ⟨t.entries ++ [(name, value)], by
      rw [List.map_append, List.nodup_append]
      refine ⟨t.nodup, by simp, ?_⟩
      intro x hx y hy
      simp only [List.map_cons, List.map_nil, List.mem_singleton] at hy
      exact fun hxy ↦ h (hy ▸ hxy ▸ hx)⟩

/-- Change the value under a name, if the name is present. -/
def modify (t : Table α) (name : String) (f : α → α) : Table α :=
  ⟨t.entries.map fun (n, a) ↦ (n, if n = name then f a else a), by
    rw [List.map_map]
    exact t.nodup⟩

/-! ### Names -/

theorem contains_iff {t : Table α} {name : String} : t.contains name = true ↔ name ∈ t.keys := by
  simp [contains, keys]

theorem add_of_contains {t : Table α} {name : String} (h : t.contains name = true) (value : α) :
    t.add name value = t :=
  dif_pos (contains_iff.mp h)

theorem entries_add_of_new {t : Table α} {name : String} (h : t.contains name = false)
    (value : α) : (t.add name value).entries = t.entries ++ [(name, value)] := by
  have hn : name ∉ t.entries.map Prod.fst := fun hm ↦ by simp [contains_iff.mpr hm] at h
  rw [add, dif_neg hn]

@[simp] theorem keys_modify (t : Table α) (name : String) (f : α → α) :
    (t.modify name f).keys = t.keys := by
  simp only [keys, modify, List.map_map]
  rfl

end Table

end Shading
