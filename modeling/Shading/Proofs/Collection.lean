import Mathlib.Data.List.Nodup
import Shading.Emission
import Shading.Proofs.Outcome

/-!
# Look-up by name

What is found under a name in a table, also after something was added to it or changed in it, and in
a list of pairs with different names.
-/

namespace Shading.Table

variable {α : Type}

theorem mem_of_get? {t : Table α} {name : String} {a : α} (h : t.get? name = some a) :
    (name, a) ∈ t.entries := by
  obtain ⟨⟨n, b⟩, hfind, rfl⟩ := Option.map_eq_some_iff.mp h
  have hname : n = name := by simpa using List.find?_some hfind
  exact hname ▸ List.mem_of_find?_eq_some hfind

theorem contains_of_mem {t : Table α} {name : String} {a : α} (h : (name, a) ∈ t.entries) :
    t.contains name = true :=
  contains_iff.mpr (List.mem_map.mpr ⟨(name, a), h, rfl⟩)

theorem contains_of_get? {t : Table α} {name : String} {a : α} (h : t.get? name = some a) :
    t.contains name = true :=
  contains_of_mem (mem_of_get? h)

theorem exists_get? {t : Table α} {name : String} (h : t.contains name = true) :
    ∃ a, t.get? name = some a := by
  obtain ⟨entry, hmem, hname⟩ := List.any_eq_true.mp h
  have hsome : (t.entries.find? (·.1 == name)).isSome = true := by
    rw [List.find?_isSome]
    exact ⟨entry, hmem, hname⟩
  obtain ⟨found, hfound⟩ := Option.isSome_iff_exists.mp hsome
  exact ⟨found.2, by rw [get?, hfound, Option.map_some]⟩

/-- A name stands for one value. -/
theorem get?_eq_some_iff {t : Table α} {name : String} {a : α} :
    t.get? name = some a ↔ (name, a) ∈ t.entries := by
  refine ⟨mem_of_get?, ?_⟩
  intro hmem
  obtain ⟨b, hb⟩ := exists_get? (contains_of_mem hmem)
  have heq : (name, b) = (name, a) := List.inj_on_of_nodup_map t.nodup (mem_of_get? hb) hmem rfl
  rw [hb, (Prod.mk.inj heq).2]

theorem contains_add {t : Table α} {name other : String} {b : α} :
    (t.add other b).contains name = true ↔ t.contains name = true ∨ name = other := by
  by_cases hother : t.contains other = true
  · rw [add_of_contains hother]
    exact ⟨.inl, fun h ↦ h.elim id fun heq ↦ heq ▸ hother⟩
  · rw [contains_iff, contains_iff, keys, keys, entries_add_of_new (by simpa using hother)]
    simp

theorem get?_add_of_new {t : Table α} {name other : String} {a b : α}
    (hnew : t.contains other = false) :
    (t.add other b).get? name = some a ↔ t.get? name = some a ∨ name = other ∧ a = b := by
  rw [get?_eq_some_iff, entries_add_of_new hnew, get?_eq_some_iff, List.mem_append,
    List.mem_singleton, Prod.mk.injEq]

theorem contains_eq_isSome {t : Table α} {name : String} :
    t.contains name = (t.get? name).isSome := by
  rw [Bool.eq_iff_iff, Option.isSome_iff_exists]
  exact ⟨exists_get?, fun ⟨_, ha⟩ ↦ contains_of_get? ha⟩

theorem get?_add {t : Table α} {name other : String} {b : α} :
    (t.add other b).get? name =
      if t.contains other = false ∧ name = other then some b else t.get? name := by
  cases hother : t.contains other with
  | true =>
      rw [add_of_contains hother]
      simp
  | false =>
      ext a
      rw [get?_add_of_new hother]
      split
      · next h =>
          have hnone : t.get? name = none := by
            cases hname : t.get? name with
            | none => rfl
            | some c =>
                rw [h.2] at hname
                cases hother.symm.trans (contains_of_get? hname)
          rw [hnone, h.2]
          simp [eq_comm]
      · next h =>
          have hne : name ≠ other := fun heq ↦ h ⟨rfl, heq⟩
          simp [hne]

theorem get?_modify {t : Table α} {name other : String} {f : α → α} :
    (t.modify other f).get? name =
      (t.get? name).map fun a ↦ if name = other then f a else a := by
  ext a
  rw [get?_eq_some_iff, Option.map_eq_some_iff, modify, List.mem_map]
  constructor
  · rintro ⟨⟨n, b⟩, hmem, heq⟩
    obtain ⟨rfl, rfl⟩ := Prod.mk.inj heq
    exact ⟨b, get?_eq_some_iff.mpr hmem, rfl⟩
  · rintro ⟨b, hb, rfl⟩
    exact ⟨(name, b), mem_of_get? hb, rfl⟩

/-! ### Several entries -/

/-- Add several entries, one after the other. -/
def addAll (t : Table α) (items : List (String × α)) : Table α :=
  items.foldl (fun t (name, a) ↦ t.add name a) t

theorem addAll_append (t : Table α) (items more : List (String × α)) :
    t.addAll (items ++ more) = (t.addAll items).addAll more :=
  List.foldl_append

theorem mem_keys_add {t : Table α} {name other : String} {a : α} :
    name ∈ (t.add other a).keys ↔ name ∈ t.keys ∨ name = other := by
  rw [← contains_iff, contains_add, contains_iff]

theorem mem_keys_addAll {t : Table α} {items : List (String × α)} {name : String} :
    name ∈ (t.addAll items).keys ↔ name ∈ t.keys ∨ name ∈ items.map Prod.fst := by
  induction items generalizing t with
  | nil => simp [addAll]
  | cons item items ih =>
      have hfirst : t.addAll (item :: items) = (t.add item.1 item.2).addAll items := rfl
      rw [hfirst, ih, mem_keys_add, List.map_cons, List.mem_cons, or_assoc]

theorem prefix_add (t : Table α) (name : String) (a : α) :
    t.entries <+: (t.add name a).entries := by
  cases hname : t.contains name with
  | true => simp only [add_of_contains hname, List.prefix_rfl]
  | false =>
      rw [entries_add_of_new hname]
      exact List.prefix_append t.entries [(name, a)]

theorem prefix_addAll (t : Table α) (items : List (String × α)) :
    t.entries <+: (t.addAll items).entries := by
  induction items generalizing t with
  | nil => exact List.prefix_rfl
  | cons item items ih => exact (t.prefix_add item.1 item.2).trans (ih _)

theorem get?_addAll_of_some {t : Table α} {name : String} {a : α} (h : t.get? name = some a)
    (items : List (String × α)) : (t.addAll items).get? name = some a :=
  get?_eq_some_iff.mpr ((t.prefix_addAll items).subset (mem_of_get? h))

/-- What is added is found, unless something else of its name was there. -/
theorem get?_addAll_of_mem {t : Table α} {items : List (String × α)}
    (hnames : (items.map Prod.fst).Nodup) {name : String} {a : α} (hmem : (name, a) ∈ items)
    (hold : ∀ b, t.get? name = some b → b = a) : (t.addAll items).get? name = some a := by
  induction items generalizing t with
  | nil => cases hmem
  | cons item items ih =>
      rw [List.map_cons, List.nodup_cons] at hnames
      have hfirst : t.addAll (item :: items) = (t.add item.1 item.2).addAll items := rfl
      rw [hfirst]
      rcases List.mem_cons.mp hmem with rfl | hmem
      · apply get?_addAll_of_some
        rw [get?_add]
        split
        · rfl
        · next hnot =>
            have hthere : t.contains name = true := by simpa using hnot
            obtain ⟨b, hb⟩ := exists_get? hthere
            rw [hb, hold b hb]
      · have hne : name ≠ item.1 := by
          rintro rfl
          exact hnames.1 (List.mem_map.mpr ⟨_, hmem, rfl⟩)
        apply ih hnames.2 hmem
        intro b hb
        rw [get?_add, if_neg fun h ↦ hne h.2] at hb
        exact hold b hb

/-! ### Values that are mapped -/

variable {β : Type}

def map (f : α → β) (t : Table α) : Table β :=
  ⟨t.entries.map fun (n, a) ↦ (n, f a), by
    rw [List.map_map]
    exact t.nodup⟩

theorem get?_map {f : α → β} {t : Table α} {name : String} :
    (t.map f).get? name = (t.get? name).map f := by
  ext b
  rw [get?_eq_some_iff, Option.map_eq_some_iff, map, List.mem_map]
  constructor
  · rintro ⟨⟨n, a⟩, hmem, heq⟩
    obtain ⟨rfl, rfl⟩ := Prod.mk.inj heq
    exact ⟨a, get?_eq_some_iff.mpr hmem, rfl⟩
  · rintro ⟨a, ha, rfl⟩
    exact ⟨(name, a), mem_of_get? ha, rfl⟩

theorem ext_entries {t t' : Table α} (h : t.entries = t'.entries) : t = t' := by
  obtain ⟨entries, nodup⟩ := t
  cases h
  rfl

theorem entries_map {t : Table α} {f : α → β} :
    (t.map f).entries = t.entries.map fun (n, a) ↦ (n, f a) := rfl

theorem keys_map (f : α → β) (t : Table α) : (t.map f).keys = t.keys := by
  rw [keys, keys, entries_map, List.map_map]
  rfl

theorem contains_map {t : Table α} {f : α → β} {name : String} :
    (t.map f).contains name = t.contains name := by
  rw [Bool.eq_iff_iff, contains_iff, contains_iff, keys_map]

theorem map_add {t : Table α} {f : α → β} {name : String} {a : α} :
    (t.add name a).map f = (t.map f).add name (f a) := by
  cases hname : t.contains name with
  | true => rw [add_of_contains hname, add_of_contains (contains_map.trans hname)]
  | false =>
      apply ext_entries
      rw [entries_add_of_new (contains_map.trans hname), entries_map, entries_map,
        entries_add_of_new hname, List.map_append]
      rfl

theorem map_modify {t : Table α} {f : α → β} {name : String} {a b : α} (ha : t.get? name = some a)
    (hf : f b = f a) : (t.modify name fun _ ↦ b).map f = t.map f := by
  apply ext_entries
  rw [entries_map, entries_map, modify, List.map_map]
  apply List.map_congr_left
  rintro ⟨n, c⟩ hmem
  by_cases hn : n = name
  · subst hn
    cases (get?_eq_some_iff.mpr hmem).symm.trans ha
    simp [hf]
  · simp [hn]

end Shading.Table

theorem Shading.Declarations.find_eq_ok {α : Type} {table : Table α} {kind : DeclKind}
    {name : String} {a : α} : find table kind name = .ok a ↔ table.get? name = some a := by
  rw [find]
  cases table.get? name <;> simp

theorem Shading.Declarations.constant_eq_ok {d : Declarations} {i : Nat} {c : Term} :
    d.constant i = .ok c ↔ d.constants[i]? = some c := by
  rw [constant]
  cases d.constants[i]? <;> simp

/-! ### Association lists -/

namespace Shading

theorem mem_of_lookup {α : Type} {xs : List (String × α)} {name : String} {a : α}
    (h : xs.lookup name = some a) : (name, a) ∈ xs := by
  induction xs with
  | nil => cases h
  | cons x xs ih =>
      rw [List.lookup_cons] at h
      split at h
      · next heq =>
        cases h
        rw [eq_of_beq heq]
        exact List.mem_cons_self
      · exact List.mem_cons_of_mem x (ih h)

theorem lookup_of_mem {κ α : Type} [BEq κ] [LawfulBEq κ] {xs : List (κ × α)}
    (hkeys : (xs.map Prod.fst).Nodup) {key : κ} {a : α} (h : (key, a) ∈ xs) :
    xs.lookup key = some a := by
  induction xs with
  | nil => cases h
  | cons x xs ih =>
      obtain ⟨hx, hrest⟩ := List.nodup_cons.mp hkeys
      rw [List.lookup_cons]
      rcases List.mem_cons.mp h with rfl | hmem
      · simp
      · have hne : (key == x.1) = false := by
          rw [beq_eq_false_iff_ne]
          intro heq
          exact hx (heq ▸ List.mem_map_of_mem hmem)
        rw [hne]
        exact ih hrest hmem

end Shading
