import Mathlib.Algebra.Order.Field.Power
import Mathlib.Data.Rat.Cast.Order
import Mathlib.Order.Monotone.Basic
import Mathlib.Tactic.FieldSimp
import Mathlib.Tactic.Linarith
import Mathlib.Tactic.LinearCombination
import Mathlib.Tactic.Positivity
import Mathlib.Tactic.Ring
import Shading.Number.Binary32

/-!
# Nearest floating-point numbers

The numbers that are not NaN stand in a row, from minus infinity to infinity, and neighbours differ
in the parity of their significands.  Here an infinity counts as the power of two at which numbers
overflow.  A rational number belongs to the nearest of them, and to the one with the even
significand if it lies halfway between two.

Main statement: a rational number between the midpoints on either side of a number belongs to it,
and to nothing else but the other zero.
-/

namespace Shading

namespace Binary32

/-! ### Magnitudes -/

def significandAt (n : Nat) : Nat :=
  if n / fractions = 0 then n % fractions else n % fractions + fractions

def exponentAt (n : Nat) : Int :=
  (max (n / fractions) 1 : Nat) - 150

/-- The absolute value that belongs to a magnitude. -/
def absAt (n : Nat) : ℚ :=
  significandAt n * 2 ^ exponentAt n

theorem significandAt_mod_two (n : Nat) : significandAt n % 2 = n % 2 := by
  unfold significandAt fractions
  split <;> omega

/-- Among numbers with one exponent the significands follow each other. -/
theorem absAt_succ_of_lt {n : Nat} (h : n % fractions + 1 < fractions) :
    absAt (n + 1) = absAt n + 2 ^ exponentAt n := by
  have hdiv : (n + 1) / fractions = n / fractions := by
    unfold fractions at *
    omega
  have hsignificand : significandAt (n + 1) = significandAt n + 1 := by
    rw [significandAt, significandAt, hdiv]
    unfold fractions at *
    split <;> omega
  rw [absAt, absAt, hsignificand, exponentAt, hdiv, ← exponentAt]
  push_cast
  ring

/-- After the largest significand comes the least with the next exponent. -/
theorem absAt_succ_of_eq {n : Nat} (h : n % fractions + 1 = fractions) :
    absAt (n + 1) = absAt n + 2 ^ exponentAt n := by
  have hdiv : (n + 1) / fractions = n / fractions + 1 := by
    unfold fractions at *
    omega
  have hnext : significandAt (n + 1) = fractions := by
    rw [significandAt, hdiv, if_neg (Nat.succ_ne_zero _)]
    unfold fractions at *
    omega
  rcases Nat.eq_zero_or_pos (n / fractions) with hzero | hpos
  · -- the numbers below the least normal one share its exponent
    have hexponent : exponentAt (n + 1) = exponentAt n := by
      rw [exponentAt, exponentAt, hdiv, hzero]
      rfl
    have hsignificand : significandAt n + 1 = fractions := by
      rw [significandAt, if_pos hzero, h]
    rw [absAt, absAt, hnext, hexponent, ← hsignificand]
    push_cast
    ring
  · have hexponent : exponentAt (n + 1) = exponentAt n + 1 := by
      rw [exponentAt, exponentAt, hdiv]
      omega
    have hsignificand : significandAt n + 1 = 2 * fractions := by
      rw [significandAt, if_neg hpos.ne']
      omega
    have hcast : (significandAt n : ℚ) + 1 = 2 * fractions := by
      exact_mod_cast hsignificand
    rw [absAt, absAt, hnext, hexponent, zpow_add_one₀ two_ne_zero]
    linear_combination -(2 : ℚ) ^ exponentAt n * hcast

/-- The next magnitude is one unit in the last place away. -/
theorem absAt_succ (n : Nat) : absAt (n + 1) = absAt n + 2 ^ exponentAt n := by
  have hlt : n % fractions < fractions := Nat.mod_lt _ (by decide)
  rcases Nat.lt_or_eq_of_le (Nat.succ_le_of_lt hlt) with h | h
  · exact absAt_succ_of_lt h
  · exact absAt_succ_of_eq h

@[simp] theorem absAt_zero : absAt 0 = 0 := by
  simp [absAt, significandAt]

theorem strictMono_absAt : StrictMono absAt := by
  apply strictMono_nat_of_lt_succ
  intro n
  rw [absAt_succ]
  exact lt_add_of_pos_right _ (zpow_pos two_pos _)

/-! ### Positions -/

/-- The value at a position of the row, counted from zero. -/
def valueAt : Int → ℚ
  | .ofNat n => absAt n
  | .negSucc n => -absAt (n + 1)

theorem valueAt_natCast (n : Nat) : valueAt n = absAt n :=
  rfl

@[simp] theorem valueAt_zero : valueAt 0 = 0 :=
  absAt_zero

theorem valueAt_neg (i : Int) : valueAt (-i) = -valueAt i := by
  cases i with
  | ofNat n =>
      cases n with
      | zero => simp
      | succ n => rfl
  | negSucc n => exact (neg_neg (absAt (n + 1))).symm

theorem valueAt_lt_succ (i : Int) : valueAt i < valueAt (i + 1) := by
  cases i with
  | ofNat n => exact strictMono_absAt n.lt_succ_self
  | negSucc n =>
      cases n with
      | zero =>
          have hpos := strictMono_absAt Nat.zero_lt_one
          change -absAt 1 < absAt 0
          rw [absAt_zero] at hpos ⊢
          exact neg_neg_of_pos hpos
      | succ n => exact neg_lt_neg (strictMono_absAt (n + 1).lt_succ_self)

theorem valueAt_lt {i j : Int} (h : i < j) : valueAt i < valueAt j :=
  strictMono_int_of_lt_succ valueAt_lt_succ h

theorem valueAt_le {i j : Int} (h : i ≤ j) : valueAt i ≤ valueAt j :=
  (strictMono_int_of_lt_succ valueAt_lt_succ).monotone h

/-- Where a number stands in the row.  The two zeros share a position. -/
def position (x : Binary32) : Int :=
  if x.signBit then -x.magnitude else x.magnitude

theorem position_eq {x : Binary32} (hx : x.isNaN = false) :
    x.position = if x.isNegative then -(x.magnitude : Int) else x.magnitude := by
  rw [position, isNegative, isZero, hx]
  cases x.signBit with
  | false => rfl
  | true =>
      by_cases hzero : x.magnitude = 0
      · simp [hzero]
      · simp [hzero]

/-- The value of a number that is not NaN, where that of an infinity is a power of two. -/
def value (x : Binary32) : ℚ :=
  (if x.signBit then -1 else 1) * (x.significand * 2 ^ x.exponent)

theorem value_eq (x : Binary32) : x.value = valueAt x.position := by
  rw [value, position]
  split
  · rw [valueAt_neg, neg_one_mul]
    rfl
  · rw [one_mul]
    rfl

/-- The position of infinity. -/
def lastPosition : Int := 255 * fractions

theorem isNaN_eq_false (x : Binary32) : x.isNaN = false ↔ x.magnitude ≤ 255 * fractions := by
  have hlt : x.magnitude < 256 * fractions := Nat.mod_lt _ (by decide)
  rw [isNaN, exponentField, fraction, Bool.and_eq_false_iff, beq_eq_false_iff_ne,
    bne_eq_false_iff_eq]
  unfold fractions at *
  omega

theorem isNaN_eq_false_iff_position (x : Binary32) :
    x.isNaN = false ↔ -lastPosition ≤ x.position ∧ x.position ≤ lastPosition := by
  rw [isNaN_eq_false, position, lastPosition]
  split <;> omega

theorem isNaN_of_isFinite {x : Binary32} (hx : x.isFinite = true) : x.isNaN = false := by
  rw [isFinite, decide_eq_true_eq] at hx
  rw [isNaN, beq_eq_false_iff_ne.mpr hx.ne, Bool.false_and]

theorem isInfinite_of_isFinite {x : Binary32} (hx : x.isFinite = true) : x.isInfinite = false := by
  rw [isFinite, decide_eq_true_eq] at hx
  rw [isInfinite, beq_eq_false_iff_ne.mpr hx.ne, Bool.false_and]

theorem exists_position_eq {i : Int} (hlow : -lastPosition ≤ i) (hhigh : i ≤ lastPosition) :
    ∃ x : Binary32, x.isNaN = false ∧ x.position = i := by
  suffices h : ∃ x : Binary32, x.position = i by
    obtain ⟨x, rfl⟩ := h
    exact ⟨x, (isNaN_eq_false_iff_position x).mpr ⟨hlow, hhigh⟩, rfl⟩
  unfold lastPosition fractions at hlow hhigh
  refine ⟨⟨UInt32.ofNat (i.natAbs + if i < 0 then magnitudes else 0)⟩, ?_⟩
  have hbits : (UInt32.ofNat (i.natAbs + if i < 0 then magnitudes else 0)).toNat =
      i.natAbs + if i < 0 then magnitudes else 0 := by
    rw [UInt32.toNat_ofNat', Nat.mod_eq_of_lt]
    unfold magnitudes
    split <;> omega
  rw [position, signBit, magnitude]
  dsimp only
  rw [hbits]
  unfold magnitudes
  simp only [decide_eq_true_eq]
  split <;> split <;> omega

theorem sameValue_iff (x y : Binary32) : x.sameValue y = true ↔
    x.isNaN = false ∧ y.isNaN = false ∧ x.position = y.position := by
  have hx : x.bits.toNat < 2 * magnitudes := x.bits.toNat_lt
  have hy : y.bits.toNat < 2 * magnitudes := y.bits.toNat_lt
  have hposition : (x.bits == y.bits || (x.isZero && y.isZero)) = true ↔
      x.position = y.position := by
    rw [Bool.or_eq_true, beq_iff_eq, Bool.and_eq_true, isZero, isZero, beq_iff_eq, beq_iff_eq,
      position, position, signBit, signBit, ← UInt32.toNat_inj, magnitude, magnitude]
    unfold magnitudes at *
    simp only [decide_eq_true_eq]
    split <;> split <;> omega
  rw [sameValue, Bool.and_eq_true, Bool.and_eq_true, hposition, Bool.not_eq_true',
    Bool.not_eq_true', and_assoc]

/-! ### Nearest numbers -/

/-- Rounding to the nearest number, ties to the even significand. -/
structure IsNearest (q : ℚ) (x : Binary32) : Prop where
  isNaN_eq : x.isNaN = false
  abs_sub_le : ∀ y : Binary32, y.isNaN = false → |q - x.value| ≤ |q - y.value|
  even_of_tie : ∀ y : Binary32, y.isNaN = false → y.value ≠ x.value →
    |q - x.value| = |q - y.value| → x.significand % 2 = 0

/-- Which of two values is nearer depends on the side of their midpoint. -/
theorem abs_sub_le_abs_sub_iff {q a b : ℚ} :
    |q - a| ≤ |q - b| ↔ 0 ≤ (b - a) * (a + b - 2 * q) := by
  rw [← sq_le_sq, ← sub_nonneg]
  ring_nf

theorem position_mod_two (x : Binary32) : x.position % 2 = x.significand % 2 := by
  have hparity : x.significand % 2 = x.magnitude % 2 := significandAt_mod_two x.magnitude
  rw [position]
  split <;> omega

/-- At most one number follows another one that is as near. -/
theorem IsNearest.position_le {q : ℚ} {x y : Binary32} (hx : IsNearest q x) (hy : IsNearest q y) :
    y.position ≤ x.position := by
  by_contra! hlt
  have hvalue : x.value < y.value := by
    rw [value_eq, value_eq]
    exact valueAt_lt hlt
  have htie : |q - x.value| = |q - y.value| :=
    le_antisymm (hx.abs_sub_le y hy.isNaN_eq) (hy.abs_sub_le x hx.isNaN_eq)
  have hmidpoint : x.value + y.value = 2 * q := by
    have hle := abs_sub_le_abs_sub_iff.mp htie.le
    have hge := abs_sub_le_abs_sub_iff.mp htie.ge
    nlinarith
  obtain ⟨hlow, -⟩ := (isNaN_eq_false_iff_position x).mp hx.isNaN_eq
  obtain ⟨-, hhigh⟩ := (isNaN_eq_false_iff_position y).mp hy.isNaN_eq
  rcases Int.lt_or_eq_of_le (Int.add_one_le_of_lt hlt) with hgap | hnext
  · -- a number between the two would be nearer than both
    obtain ⟨z, hz, hposition⟩ := exists_position_eq (i := x.position + 1) (by omega) (by omega)
    have hxz : x.value < z.value := by
      rw [value_eq, value_eq, hposition]
      exact valueAt_lt (lt_add_one _)
    have hzy : z.value < y.value := by
      rw [value_eq, value_eq, hposition]
      exact valueAt_lt hgap
    have hle := abs_sub_le_abs_sub_iff.mp (hx.abs_sub_le z hz)
    nlinarith
  · have hxeven := hx.even_of_tie y hy.isNaN_eq hvalue.ne' htie
    have hyeven := hy.even_of_tie x hx.isNaN_eq hvalue.ne htie.symm
    have hxparity := position_mod_two x
    have hyparity := position_mod_two y
    omega

theorem IsNearest.of_sameValue {q : ℚ} {x y : Binary32} (hx : IsNearest q x)
    (h : y.sameValue x = true) : IsNearest q y := by
  obtain ⟨hy, -, hposition⟩ := (sameValue_iff y x).mp h
  have hvalue : y.value = x.value := by
    rw [value_eq, value_eq, hposition]
  refine ⟨hy, ?_, ?_⟩
  · rw [hvalue]
    exact hx.abs_sub_le
  · rw [hvalue]
    intro z hz hne htie
    have heven := hx.even_of_tie z hz hne htie
    have hxparity := position_mod_two x
    have hyparity := position_mod_two y
    omega

/-- A rational number lies between the midpoints around a position, strictly if it is odd. -/
structure Around (i : Int) (q : ℚ) : Prop where
  low : valueAt (i - 1) + valueAt i ≤ 2 * q
  high : 2 * q ≤ valueAt i + valueAt (i + 1)
  low_odd : i % 2 = 1 → valueAt (i - 1) + valueAt i < 2 * q
  high_odd : i % 2 = 1 → 2 * q < valueAt i + valueAt (i + 1)

theorem around_valueAt (i : Int) : Around i (valueAt i) := by
  have hbelow := valueAt_lt (sub_one_lt i)
  have habove := valueAt_lt (lt_add_one i)
  constructor <;> intros <;> linarith

theorem Around.neg {i : Int} {q : ℚ} (h : Around i q) : Around (-i) (-q) := by
  have hbelow : valueAt (-i - 1) = -valueAt (i + 1) := by
    rw [← valueAt_neg, neg_add']
  have habove : valueAt (-i + 1) = -valueAt (i - 1) := by
    rw [← valueAt_neg, neg_sub', sub_neg_eq_add]
  have hodd : -i % 2 = 1 ↔ i % 2 = 1 := by
    omega
  constructor
  · rw [hbelow, valueAt_neg]
    linarith [h.high]
  · rw [habove, valueAt_neg]
    linarith [h.low]
  · rw [hodd, hbelow, valueAt_neg]
    intro hi
    linarith [h.high_odd hi]
  · rw [hodd, habove, valueAt_neg]
    intro hi
    linarith [h.low_odd hi]

/-- Away from a position, every value lies beyond a midpoint. -/
theorem Around.sign {i j : Int} {q : ℚ} (h : Around i q) (hj : j ≠ i) :
    0 ≤ (valueAt j - valueAt i) * (valueAt i + valueAt j - 2 * q) ∧
      (i % 2 = 1 → 0 < (valueAt j - valueAt i) * (valueAt i + valueAt j - 2 * q)) := by
  rcases lt_or_gt_of_ne hj with hlt | hgt
  · have hstep := valueAt_le (Int.le_sub_one_of_lt hlt)
    have hvalue := valueAt_lt hlt
    refine ⟨mul_nonneg_of_nonpos_of_nonpos (by linarith) (by linarith [h.low]), fun hi ↦ ?_⟩
    exact mul_pos_of_neg_of_neg (by linarith) (by linarith [h.low_odd hi])
  · have hstep := valueAt_le (Int.add_one_le_of_lt hgt)
    have hvalue := valueAt_lt hgt
    refine ⟨mul_nonneg (by linarith) (by linarith [h.high]), fun hi ↦ ?_⟩
    exact mul_pos (by linarith) (by linarith [h.high_odd hi])

theorem Around.isNearest {x : Binary32} {q : ℚ} (h : Around x.position q)
    (hx : x.isNaN = false) : IsNearest q x := by
  refine ⟨hx, ?_, ?_⟩
  · intro y _
    by_cases hposition : y.position = x.position
    · rw [value_eq, value_eq, hposition]
    · rw [abs_sub_le_abs_sub_iff, value_eq, value_eq]
      exact (h.sign hposition).1
  · intro y _ hne htie
    by_contra hodd
    have hi : x.position % 2 = 1 := by
      have hparity := position_mod_two x
      omega
    have hposition : y.position ≠ x.position := by
      intro hposition
      rw [value_eq, value_eq, hposition] at hne
      exact hne rfl
    have hpos := (h.sign hposition).2 hi
    have hle := abs_sub_le_abs_sub_iff.mp htie.ge
    rw [value_eq, value_eq] at hle
    linarith

/-- Between the midpoints around a number, it is the only nearest number, but for the sign of
zero. -/
theorem Around.isNearest_iff {x : Binary32} {q : ℚ} (h : Around x.position q)
    (hx : x.isNaN = false) (y : Binary32) : IsNearest q y ↔ y.sameValue x = true := by
  have hnearest := h.isNearest hx
  constructor
  · intro hy
    exact (sameValue_iff y x).mpr
      ⟨hy.isNaN_eq, hx, le_antisymm (hnearest.position_le hy) (hy.position_le hnearest)⟩
  · exact hnearest.of_sameValue

end Binary32

end Shading
