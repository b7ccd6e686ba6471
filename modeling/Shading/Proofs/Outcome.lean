import Mathlib.Data.List.Forall2
import Shading.Error

/-!
# Outcomes

How a computation that may fail succeeds: every step of it does.  A failure is that of a step.
-/

namespace Shading

variable {α β : Type}

@[simp] theorem ok_bind (a : α) (f : α → Except Error β) : (Except.ok a >>= f) = f a := rfl

@[simp] theorem error_bind (e : Error) (f : α → Except Error β) :
    ((Except.error e : Except Error α) >>= f) = .error e := rfl

@[simp] theorem pure_eq_ok (a : α) : (pure a : Except Error α) = .ok a := rfl

@[simp] theorem throw_eq_error (e : Error) : (throw e : Except Error α) = .error e := rfl

theorem bind_eq_ok {x : Except Error α} {f : α → Except Error β} {b : β} :
    (x >>= f) = .ok b ↔ ∃ a, x = .ok a ∧ f a = .ok b := by
  cases x with
  | error e => simp
  | ok a => simp

theorem exists_error_iff {x : Except Error α} : (∃ e, x = .error e) ↔ ¬ ∃ a, x = .ok a := by
  cases x with
  | error e => simp
  | ok a => simp

theorem eq_ok_of_toOption {x : Except Error α} {a : α} (h : x.toOption = some a) : x = .ok a := by
  cases x with
  | error e => cases h
  | ok b => exact congrArg _ (Option.some.inj h)

/-- A function succeeds on a list if it does on every member. -/
theorem mapM_eq_ok {f : α → Except Error β} {xs : List α} {ys : List β} :
    xs.mapM f = .ok ys ↔ List.Forall₂ (fun x y ↦ f x = .ok y) xs ys := by
  induction xs generalizing ys with
  | nil =>
      rw [List.mapM_nil, List.forall₂_nil_left_iff]
      simp [eq_comm]
  | cons x xs ih =>
      rw [List.mapM_cons, List.forall₂_cons_left_iff]
      constructor
      · intro h
        obtain ⟨y, hy, h⟩ := bind_eq_ok.mp h
        obtain ⟨ys', hys, h⟩ := bind_eq_ok.mp h
        cases h
        exact ⟨y, ys', hy, ih.mp hys, rfl⟩
      · rintro ⟨y, ys', hy, hys, rfl⟩
        rw [hy, ok_bind, ih.mpr hys]
        rfl

/-- A position among the results is one among the arguments. -/
theorem mapM_eq_append_cons {f : α → Except Error β} {xs : List α} {l l' : List β} {y : β}
    (h : xs.mapM f = .ok (l ++ y :: l')) :
    ∃ k x k', xs = k ++ x :: k' ∧ k.mapM f = .ok l ∧ f x = .ok y := by
  have hall := mapM_eq_ok.mp h
  clear h
  induction l generalizing xs with
  | nil =>
      obtain ⟨x, k', hx, -, rfl⟩ := List.forall₂_cons_right_iff.mp hall
      exact ⟨[], x, k', rfl, rfl, hx⟩
  | cons a l ih =>
      obtain ⟨b, bs, hb, hbs, rfl⟩ := List.forall₂_cons_right_iff.mp hall
      obtain ⟨k, x, k', rfl, hk, hx⟩ := ih hbs
      exact ⟨b :: k, x, k', rfl, mapM_eq_ok.mpr (.cons hb (mapM_eq_ok.mp hk)), hx⟩

theorem exists_mapM_eq_ok {f : α → Except Error β} {xs : List α}
    (h : ∀ x ∈ xs, ∃ y, f x = .ok y) : ∃ ys, xs.mapM f = .ok ys := by
  induction xs with
  | nil => exact ⟨[], rfl⟩
  | cons x xs ih =>
      obtain ⟨y, hy⟩ := h x List.mem_cons_self
      obtain ⟨ys, hys⟩ := ih fun x' hx' ↦ h x' (List.mem_cons_of_mem x hx')
      exact ⟨y :: ys, mapM_eq_ok.mpr (.cons hy (mapM_eq_ok.mp hys))⟩

theorem exists_bind_iff {x : Except Error α} {f : α → Except Error β}
    (hf : ∀ a, ∃ b, f a = .ok b) : (∃ b, x >>= f = .ok b) ↔ ∃ a, x = .ok a := by
  constructor
  · rintro ⟨b, hb⟩
    obtain ⟨a, ha, -⟩ := bind_eq_ok.mp hb
    exact ⟨a, ha⟩
  · rintro ⟨a, rfl⟩
    exact hf a

/-- Two steps succeed if the first one does and the second one would. -/
theorem exists_bind_iff_and {x : Except Error α} {f : α → Except Error β} {Q : Prop}
    (hf : ∀ a, (∃ b, f a = .ok b) ↔ Q) :
    (∃ b, x >>= f = .ok b) ↔ (∃ a, x = .ok a) ∧ Q := by
  cases x with
  | error e => simp
  | ok a => simpa using hf a

theorem exists_mem_of_mem_mapM {f : α → Except Error β} {xs : List α} {ys : List β}
    (h : xs.mapM f = .ok ys) {x : α} (hx : x ∈ xs) : ∃ y ∈ ys, f x = .ok y := by
  have hpairs := mapM_eq_ok.mp h
  clear h
  induction hpairs with
  | nil => cases hx
  | cons hxy _ ih =>
      rcases List.mem_cons.mp hx with rfl | hrest
      · exact ⟨_, List.mem_cons_self, hxy⟩
      · obtain ⟨y, hy, hxy⟩ := ih hrest
        exact ⟨y, List.mem_cons_of_mem _ hy, hxy⟩

theorem exists_mapM_iff {f : α → Except Error β} {xs : List α} :
    (∃ ys, xs.mapM f = .ok ys) ↔ ∀ x ∈ xs, ∃ y, f x = .ok y := by
  refine ⟨?_, exists_mapM_eq_ok⟩
  rintro ⟨ys, hys⟩ x hx
  obtain ⟨y, -, hy⟩ := exists_mem_of_mem_mapM hys hx
  exact ⟨y, hy⟩

/-- What comes out of a list is what comes out of its members. -/
theorem mem_mapM {f : α → Except Error β} {xs : List α} {ys : List β} (h : xs.mapM f = .ok ys)
    {y : β} : y ∈ ys ↔ ∃ x ∈ xs, f x = .ok y := by
  constructor
  · intro hy
    have hpairs := mapM_eq_ok.mp h
    clear h
    induction hpairs with
    | nil => cases hy
    | cons hxy _ ih =>
        rcases List.mem_cons.mp hy with rfl | hrest
        · exact ⟨_, List.mem_cons_self, hxy⟩
        · obtain ⟨x, hx, hxy⟩ := ih hrest
          exact ⟨x, List.mem_cons_of_mem _ hx, hxy⟩
  · rintro ⟨x, hx, hxy⟩
    obtain ⟨y', hy', hxy'⟩ := exists_mem_of_mem_mapM h hx
    rw [hxy] at hxy'
    cases hxy'
    exact hy'

/-- What an outcome tells about its member, the outcomes tell in order. -/
theorem map_mapM {γ : Type} {f : α → Except Error β} {xs : List α} {ys : List β}
    (h : xs.mapM f = .ok ys) {g : β → γ} {key : α → γ}
    (hkey : ∀ x ∈ xs, ∀ y, f x = .ok y → g y = key x) : ys.map g = xs.map key := by
  have hpairs := mapM_eq_ok.mp h
  clear h
  induction hpairs with
  | nil => rfl
  | cons hxy _ ih =>
      rw [List.map_cons, List.map_cons, hkey _ List.mem_cons_self _ hxy,
        ih fun x hx ↦ hkey x (List.mem_cons_of_mem _ hx)]

/-- What finds every member again finds the whole list again. -/
theorem mapM_eq_some_self {f : α → Option α} (h : ∀ a, f a = some a) (xs : List α) :
    xs.mapM f = some xs := by
  have hf : f = fun a ↦ pure a := funext h
  rw [hf, List.mapM_pure, List.map_id']
  rfl

/-! ### Failures -/

/-- All failures of an outcome are of some kind. -/
def FailsOnly (P : Error → Prop) (x : Except Error α) : Prop :=
  ∀ e, x = .error e → P e

section

variable {P : Error → Prop}

theorem failsOnly_ok (a : α) : FailsOnly P (.ok a : Except Error α) := by
  intro e h
  cases h

theorem failsOnly_error {e : Error} (h : P e) : FailsOnly P (.error e : Except Error α) := by
  intro e' he'
  cases he'
  exact h

theorem failsOnly_of_exists {x : Except Error α} (h : ∃ a, x = .ok a) : FailsOnly P x := by
  obtain ⟨a, rfl⟩ := h
  exact failsOnly_ok a

theorem exists_ok_of_failsOnly {x : Except Error α} (h : FailsOnly P x) (hP : ∀ e, ¬ P e) :
    ∃ a, x = .ok a := by
  cases x with
  | error e => exact (hP e (h e rfl)).elim
  | ok a => exact ⟨a, rfl⟩

theorem FailsOnly.bind {x : Except Error α} {f : α → Except Error β} (hx : FailsOnly P x)
    (hf : ∀ a, x = .ok a → FailsOnly P (f a)) : FailsOnly P (x >>= f) := by
  cases x with
  | error e => exact failsOnly_error (hx e rfl)
  | ok a => exact hf a rfl

theorem FailsOnly.mapM {f : α → Except Error β} {xs : List α}
    (h : ∀ x ∈ xs, FailsOnly P (f x)) : FailsOnly P (xs.mapM f) := by
  induction xs with
  | nil => exact failsOnly_ok []
  | cons x xs ih =>
      rw [List.mapM_cons]
      apply (h x List.mem_cons_self).bind
      intro y _
      apply (ih fun x' hx' ↦ h x' (List.mem_cons_of_mem x hx')).bind
      intro ys _
      exact failsOnly_ok (y :: ys)

end

/-! ### Successes that stay -/

/-- Whatever comes out of the first computation comes out of the second one. -/
def Persists (x y : Except Error α) : Prop :=
  ∀ a, x = .ok a → y = .ok a

theorem persists_of_eq {x y : Except Error α} (h : y = x) : Persists x y := by
  intro a ha
  rw [h, ha]

theorem Persists.refl (x : Except Error α) : Persists x x :=
  persists_of_eq rfl

theorem Persists.trans {x y z : Except Error α} (h : Persists x y) (h' : Persists y z) :
    Persists x z :=
  fun a ha ↦ h' a (h a ha)

theorem Persists.bind {x y : Except Error α} {f g : α → Except Error β} (h : Persists x y)
    (hf : ∀ a, x = .ok a → Persists (f a) (g a)) : Persists (x >>= f) (y >>= g) := by
  intro b hb
  obtain ⟨a, ha, hb⟩ := bind_eq_ok.mp hb
  exact bind_eq_ok.mpr ⟨a, h a ha, hf a ha b hb⟩

theorem Persists.mapM {f g : α → Except Error β} {xs : List α}
    (h : ∀ x ∈ xs, Persists (f x) (g x)) : Persists (xs.mapM f) (xs.mapM g) := by
  induction xs with
  | nil => exact .refl _
  | cons x xs ih =>
      rw [List.mapM_cons, List.mapM_cons]
      apply (h x List.mem_cons_self).bind
      intro y _
      apply (ih fun x' hx' ↦ h x' (List.mem_cons_of_mem x hx')).bind
      intro ys _
      exact .refl _

end Shading
