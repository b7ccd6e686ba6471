import Shading.Proofs.Number.Nearest
import Shading.Number.Shortest

/-!
# Shortest decimals read back

The interval of a number, whose decimals are to read back as it, lies between the midpoints to its
neighbours.  The search for a decimal in the interval succeeds: at nine digits the decimal grid has
become finer than half a unit in the last place.

Main statements: rounding the shortest decimal of a number gives the number, and the shortest
decimal of a number that is no integer has digits after the point.
-/

namespace Shading

/-! ### Scaled numbers -/

/-- Negative exponents stand on the other side. -/
theorem zpow_mul_pow_toNat_neg {b : Nat} (hb : 0 < b) (k : Int) :
    (b : ℚ) ^ k * (b : ℚ) ^ (-k).toNat = (b : ℚ) ^ k.toNat := by
  rw [← zpow_natCast, ← zpow_natCast, ← zpow_add₀ (by positivity)]
  congr 1
  omega

section

variable {b : Nat} (hb : 0 < b) (a c : Nat) (k : Int)

include hb

theorem mul_pow_le_mul_pow_iff :
    a * Nat.pow b (-k).toNat ≤ c * Nat.pow b k.toNat ↔ (a : ℚ) ≤ c * (b : ℚ) ^ k := by
  have hpos : (0 : ℚ) < (b : ℚ) ^ (-k).toNat := by
    positivity
  rw [← mul_le_mul_iff_of_pos_right hpos, mul_assoc, zpow_mul_pow_toNat_neg hb]
  norm_cast

theorem mul_pow_le_mul_pow_neg_iff :
    c * Nat.pow b k.toNat ≤ a * Nat.pow b (-k).toNat ↔ c * (b : ℚ) ^ k ≤ a := by
  have hpos : (0 : ℚ) < (b : ℚ) ^ (-k).toNat := by
    positivity
  rw [← mul_le_mul_iff_of_pos_right hpos, mul_assoc, zpow_mul_pow_toNat_neg hb]
  norm_cast

end

/-! ### Decimals -/

namespace Decimal

def value (d : Decimal) : ℚ :=
  d.digits * 10 ^ d.exponent

theorem value_go (fuel n : Nat) (e : Int) : (normalize.go fuel n e).value = n * 10 ^ e := by
  induction fuel generalizing n e with
  | zero => rfl
  | succ fuel ih =>
      rw [normalize.go]
      split
      · next h =>
        have hdigits : (n : ℚ) = 10 * (n / 10 : Nat) := by
          exact_mod_cast (Nat.mul_div_cancel' (Nat.dvd_of_mod_eq_zero h.2)).symm
        rw [ih, zpow_add_one₀ (by norm_num), hdigits]
        ring
      · rfl

@[simp] theorem value_normalize (d : Decimal) : d.normalize.value = d.value :=
  value_go _ _ _

end Decimal

/-! ### Intervals -/

namespace Shortest

namespace Interval

/-- A rational number lies in the interval. -/
structure Contains (i : Interval) (q : ℚ) : Prop where
  low : i.low ≤ q * i.den
  high : q * i.den ≤ i.high
  low_open : i.closed = false → i.low < q * i.den
  high_open : i.closed = false → q * i.den < i.high

variable {i : Interval}

theorem holds_iff (t : Nat) (k : Int) : i.holds t k = true ↔ i.Contains (t * 10 ^ k) := by
  have hlow := mul_pow_le_mul_pow_iff (b := 10) (by norm_num) i.low (t * i.den) k
  have hlow' := mul_pow_le_mul_pow_neg_iff (b := 10) (by norm_num) i.low (t * i.den) k
  have hhigh := mul_pow_le_mul_pow_neg_iff (b := 10) (by norm_num) i.high (t * i.den) k
  have hhigh' := mul_pow_le_mul_pow_iff (b := 10) (by norm_num) i.high (t * i.den) k
  push_cast at hlow hlow' hhigh hhigh'
  rw [holds, mul_right_comm t]
  cases hclosed : i.closed with
  | true =>
      rw [if_pos rfl, Bool.and_eq_true, decide_eq_true_eq, decide_eq_true_eq, hlow, hhigh,
        mul_right_comm]
      refine ⟨fun h ↦ ⟨h.1, h.2, ?_, ?_⟩, fun h ↦ ⟨h.low, h.high⟩⟩ <;>
        exact fun hopen ↦ absurd (hclosed.symm.trans hopen) Bool.noConfusion
  | false =>
      rw [if_neg Bool.false_ne_true, Bool.and_eq_true, decide_eq_true_eq, decide_eq_true_eq,
        ← not_le, ← not_le, hlow', hhigh', not_le, not_le, mul_right_comm]
      exact ⟨fun h ↦ ⟨h.1.le, h.2.le, fun _ ↦ h.1, fun _ ↦ h.2⟩,
        fun h ↦ ⟨h.low_open hclosed, h.high_open hclosed⟩⟩

/-! ### The search -/

theorem holds_of_onGrid? {k : Int} {t : Nat} (h : i.onGrid? k = some t) : i.holds t k = true := by
  rw [onGrid?] at h
  split at h
  · next hlower hupper =>
    cases h
    split
    · exact hupper
    · exact hlower
  · next hlower _ =>
    cases h
    exact hlower
  · next _ hupper =>
    cases h
    exact hupper
  · cases h

theorem contains_of_search {fuel : Nat} {k : Int} {d : Decimal} (h : i.search fuel k = some d) :
    i.Contains d.value := by
  induction fuel generalizing k with
  | zero => cases h
  | succ fuel ih =>
      rw [search] at h
      split at h
      · next hgrid =>
        cases h
        exact (holds_iff _ _).mp (holds_of_onGrid? hgrid)
      · exact ih h

/-- The search reaches every grid that its fuel allows. -/
theorem isSome_search {n fuel : Nat} (hn : n < fuel) {k : Int} (h : (i.onGrid? (k - n)).isSome) :
    (i.search fuel k).isSome := by
  induction fuel generalizing n k with
  | zero => exact absurd hn (Nat.not_lt_zero n)
  | succ fuel ih =>
      rw [search]
      split
      · rfl
      · next hnone =>
        cases n with
        | zero =>
            rw [Nat.cast_zero, sub_zero, hnone] at h
            cases h
        | succ n =>
            apply ih (Nat.lt_of_succ_lt_succ hn)
            rwa [sub_sub, add_comm 1 (n : Int), ← Nat.cast_succ]

/-- The neighbours of the value on a grid. -/
theorem exists_onGrid? (hden : 0 < i.den) (k : Int) : ∃ t : Nat,
    t * i.den * 10 ^ k ≤ (i.value : ℚ) ∧ (i.value : ℚ) < (t + 1) * i.den * 10 ^ k ∧
      (i.holds (t + 1) k = true → (i.onGrid? k).isSome) := by
  refine ⟨i.value * Nat.pow 10 (-k).toNat / (i.den * Nat.pow 10 k.toNat), ?_, ?_, ?_⟩
  · have hle := Nat.div_mul_le_self (i.value * Nat.pow 10 (-k).toNat)
      (i.den * Nat.pow 10 k.toNat)
    rw [← mul_assoc] at hle
    exact_mod_cast (mul_pow_le_mul_pow_neg_iff (by norm_num) _ _ k).mp hle
  · have hpos : 0 < i.den * Nat.pow 10 k.toNat := Nat.mul_pos hden (Nat.pow_pos (by norm_num))
    have hlt := Nat.lt_mul_div_succ (i.value * Nat.pow 10 (-k).toNat) hpos
    rw [mul_comm (_ * _) (_ + 1), ← mul_assoc, ← not_le] at hlt
    rw [← not_le]
    exact_mod_cast mt (mul_pow_le_mul_pow_neg_iff (by norm_num) _ _ k).mpr hlt
  · intro hupper
    rw [onGrid?, hupper]
    split <;> trivial

/-- On a fine grid the neighbour above the value lies in the interval. -/
theorem isSome_onGrid? (hden : 0 < i.den) (hlow : i.low ≤ i.value) {k : Int}
    (hgrid : i.value + i.den * 10 ^ k < (i.high : ℚ)) : (i.onGrid? k).isSome := by
  obtain ⟨t, hbelow, habove, hsome⟩ := exists_onGrid? hden k
  apply hsome
  rw [holds_iff]
  have hlow : (i.low : ℚ) ≤ i.value := by
    exact_mod_cast hlow
  have hlt : (i.low : ℚ) < (t + 1 : Nat) * 10 ^ k * i.den := by
    push_cast
    linarith
  have hgt : (t + 1 : Nat) * 10 ^ k * i.den < (i.high : ℚ) := by
    push_cast
    linarith
  exact ⟨hlt.le, hgt.le, fun _ ↦ hlt, fun _ ↦ hgt⟩

end Interval

/-- A place that starts low enough leads the number. -/
theorem leadingPlace_le (num den fuel : Nat) (k : Int)
    (h : den * 10 ^ (k - fuel) ≤ (num : ℚ)) :
    den * 10 ^ leadingPlace num den fuel k ≤ (num : ℚ) := by
  induction fuel generalizing k with
  | zero => simpa [leadingPlace] using h
  | succ fuel ih =>
      rw [leadingPlace]
      split
      · next hle => exact_mod_cast (mul_pow_le_mul_pow_neg_iff (by norm_num) num den k).mp hle
      · apply ih
        rwa [sub_sub, add_comm 1 (fuel : Int), ← Nat.cast_succ]

end Shortest

/-! ### The interval of a number -/

namespace Binary32

open Shortest

variable {x : Binary32}

/-- A quarter of a unit in the last place. -/
def quarter (x : Binary32) : ℚ :=
  2 ^ (x.exponent - 2)

theorem quarter_pos (x : Binary32) : 0 < x.quarter :=
  zpow_pos two_pos _

theorem two_zpow_exponent (x : Binary32) : (2 : ℚ) ^ x.exponent = 4 * x.quarter := by
  rw [quarter, zpow_sub₀ two_ne_zero]
  norm_num
  ring

theorem absAt_magnitude (x : Binary32) : absAt x.magnitude = 4 * x.significand * x.quarter := by
  rw [mul_comm 4, mul_assoc, ← two_zpow_exponent]
  rfl

theorem absAt_magnitude_succ (x : Binary32) :
    absAt (x.magnitude + 1) = (4 * x.significand + 4) * x.quarter := by
  rw [absAt_succ, absAt_magnitude, add_mul, ← two_zpow_exponent]
  rfl

theorem den_interval_pos (x : Binary32) : 0 < (Interval.of x).den :=
  Nat.pow_pos two_pos

/-- The scale of an interval. -/
theorem scale_eq (x : Binary32) :
    ((Nat.pow 2 (x.exponent - 2).toNat : Nat) : ℚ) = x.quarter * (Interval.of x).den := by
  have h := zpow_mul_pow_toNat_neg two_pos (x.exponent - 2)
  exact_mod_cast h.symm

/-- How far the interval reaches below a number, in quarters. -/
def margin (x : Binary32) : Nat :=
  if x.narrowBelow then 1 else 2

theorem exponentAt_pred (n : Nat) : exponentAt (n - 1) =
    if n % fractions = 0 ∧ 1 < n / fractions then exponentAt n - 1 else exponentAt n := by
  unfold exponentAt fractions
  split <;> omega

/-- The gap below a number is twice the margin. -/
theorem two_zpow_exponentAt_pred (x : Binary32) :
    (2 : ℚ) ^ exponentAt (x.magnitude - 1) = 2 * x.margin * x.quarter := by
  have hnarrow : x.narrowBelow = true ↔
      x.magnitude % fractions = 0 ∧ 1 < x.magnitude / fractions := by
    rw [narrowBelow, Bool.and_eq_true, beq_iff_eq, decide_eq_true_eq, fraction, exponentField]
  rw [exponentAt_pred, margin]
  simp only [hnarrow]
  split
  · rw [zpow_sub_one₀ two_ne_zero, ← show x.exponent = exponentAt x.magnitude from rfl,
      two_zpow_exponent]
    push_cast
    ring
  · rw [← show x.exponent = exponentAt x.magnitude from rfl, two_zpow_exponent]
    push_cast
    ring

theorem absAt_magnitude_pred (hx : x.magnitude ≠ 0) :
    absAt (x.magnitude - 1) = (4 * x.significand - 2 * x.margin) * x.quarter := by
  have hnext := absAt_succ (x.magnitude - 1)
  rw [Nat.sub_add_cancel (Nat.pos_of_ne_zero hx), absAt_magnitude, two_zpow_exponentAt_pred]
    at hnext
  linarith

theorem significand_pos (hx : x.magnitude ≠ 0) : 0 < x.significand := by
  rw [significand, exponentField, fraction]
  unfold fractions
  split <;> omega

theorem low_interval (hx : x.magnitude ≠ 0) : ((Interval.of x).low : ℚ) =
    (4 * x.significand - x.margin) * x.quarter * (Interval.of x).den := by
  have hmargin : x.margin ≤ 4 * x.significand := by
    have hpos := significand_pos hx
    rw [margin]
    split <;> omega
  have hlow : (Interval.of x).low =
      (4 * x.significand - x.margin) * Nat.pow 2 (x.exponent - 2).toNat := rfl
  rw [hlow, Nat.cast_mul, scale_eq, Nat.cast_sub hmargin]
  push_cast
  ring

theorem value_interval (x : Binary32) : ((Interval.of x).value : ℚ) =
    4 * x.significand * x.quarter * (Interval.of x).den := by
  have hvalue : (Interval.of x).value =
      4 * x.significand * Nat.pow 2 (x.exponent - 2).toNat := rfl
  rw [hvalue, Nat.cast_mul, scale_eq]
  push_cast
  ring

theorem high_interval (x : Binary32) : ((Interval.of x).high : ℚ) =
    (4 * x.significand + 2) * x.quarter * (Interval.of x).den := by
  have hhigh : (Interval.of x).high =
      (4 * x.significand + 2) * Nat.pow 2 (x.exponent - 2).toNat := rfl
  rw [hhigh, Nat.cast_mul, scale_eq]
  push_cast
  ring

/-- The interval of a number ends at the midpoints. -/
theorem around_of_contains (hx : x.magnitude ≠ 0) {q : ℚ} (h : (Interval.of x).Contains q) :
    Around x.magnitude q := by
  have hpred : valueAt ((x.magnitude : Int) - 1) =
      (4 * x.significand - 2 * x.margin) * x.quarter := by
    rw [← absAt_magnitude_pred hx, ← valueAt_natCast, Nat.cast_sub (Nat.pos_of_ne_zero hx)]
    rfl
  have hsucc : valueAt ((x.magnitude : Int) + 1) = (4 * x.significand + 4) * x.quarter := by
    rw [← absAt_magnitude_succ, ← valueAt_natCast]
    rfl
  have hparity : x.significand % 2 = x.magnitude % 2 := significandAt_mod_two x.magnitude
  have hopen (hi : (x.magnitude : Int) % 2 = 1) : (Interval.of x).closed = false :=
    beq_eq_false_iff_ne.mpr (by omega)
  have hden : (0 : ℚ) < (Interval.of x).den := by
    exact_mod_cast den_interval_pos x
  obtain ⟨hlow, hhigh, hlow', hhigh'⟩ := h
  rw [low_interval hx] at hlow hlow'
  rw [high_interval] at hhigh hhigh'
  constructor
  · rw [hpred, valueAt_natCast, absAt_magnitude]
    linarith [le_of_mul_le_mul_right hlow hden]
  · rw [hsucc, valueAt_natCast, absAt_magnitude]
    linarith [le_of_mul_le_mul_right hhigh hden]
  · intro hi
    rw [hpred, valueAt_natCast, absAt_magnitude]
    linarith [lt_of_mul_lt_mul_right (hlow' (hopen hi)) hden.le]
  · intro hi
    rw [hsucc, valueAt_natCast, absAt_magnitude]
    linarith [lt_of_mul_lt_mul_right (hhigh' (hopen hi)) hden.le]

/-! ### The shortest decimal -/

theorem significand_lt (x : Binary32) : x.significand < 2 ^ 24 := by
  rw [significand, exponentField, fraction]
  unfold fractions
  split <;> omega

theorem ten_zpow_le_significand_mul (hx : x.magnitude ≠ 0) :
    (10 : ℚ) ^ (-46 : Int) ≤ 4 * x.significand * x.quarter := by
  have hone : (1 : ℚ) ≤ x.significand := by
    exact_mod_cast significand_pos hx
  have hexponent : -149 ≤ x.exponent := by
    rw [exponent]
    omega
  calc (10 : ℚ) ^ (-46 : Int)
      ≤ 2 ^ (-149 : Int) := by norm_num
    _ ≤ 2 ^ x.exponent := zpow_le_zpow_right₀ one_le_two hexponent
    _ ≤ x.significand * 2 ^ x.exponent := le_mul_of_one_le_left (by positivity) hone
    _ = 4 * x.significand * x.quarter := by rw [two_zpow_exponent]; ring

/-- Nine digits give a grid finer than the upper half of the interval. -/
theorem isSome_search_interval (hx : x.magnitude ≠ 0) :
    ((Interval.of x).search 9
      (leadingPlace (Interval.of x).value (Interval.of x).den 85 39)).isSome := by
  have hden : (0 : ℚ) < (Interval.of x).den := by
    exact_mod_cast den_interval_pos x
  have hleading := leadingPlace_le (Interval.of x).value (Interval.of x).den 85 39 (by
    rw [value_interval, mul_comm]
    exact mul_le_mul_of_nonneg_right (ten_zpow_le_significand_mul hx) hden.le)
  generalize leadingPlace (Interval.of x).value (Interval.of x).den 85 39 = k at hleading ⊢
  rw [value_interval, mul_comm] at hleading
  have hplace := le_of_mul_le_mul_right hleading hden
  have hsignificand : (x.significand : ℚ) < 2 ^ 24 := by
    exact_mod_cast significand_lt x
  -- the leading place is below `2 ^ 24` units, and `10 ^ 8` exceeds twice that number
  have hgrid : (10 : ℚ) ^ (k - 8) < 2 * x.quarter := by
    rw [zpow_sub₀ (by norm_num)]
    have hquarter := x.quarter_pos
    have hbound := mul_lt_mul_of_pos_right hsignificand hquarter
    norm_num at hbound ⊢
    linarith
  apply Interval.isSome_search (n := 8) (by norm_num)
  apply Interval.isSome_onGrid? (den_interval_pos x)
  · exact Nat.mul_le_mul_right _ (Nat.sub_le _ _)
  · rw [value_interval, high_interval]
    have hscaled := mul_lt_mul_of_pos_right hgrid hden
    push_cast
    linarith

theorem contains_shortest (hx : x.magnitude ≠ 0) :
    (Interval.of x).Contains x.shortest.value := by
  obtain ⟨d, hd⟩ := Option.isSome_iff_exists.mp (isSome_search_interval hx)
  rw [shortest, hd, Option.getD_some, Decimal.value_normalize]
  exact Interval.contains_of_search hd

/-- The shortest decimal lies between the midpoints around its number. -/
theorem around_shortest (hx : x.magnitude ≠ 0) : Around x.magnitude x.shortest.value :=
  around_of_contains hx (contains_shortest hx)

/-! ### Integers -/

theorem exponent_neg (hx : x.isIntegral = false) : x.exponent < 0 := by
  by_contra! hnonneg
  have hpow : Nat.pow 2 (-x.exponent).toNat = 1 := by
    rw [Int.toNat_of_nonpos (neg_nonpos.mpr hnonneg)]
  rw [isIntegral, hpow, Nat.mod_one] at hx
  cases hx

theorem integerPart_eq (hx : x.isIntegral = true) : (x.integerPart : ℚ) = absAt x.magnitude := by
  have hdvd := Nat.dvd_of_mod_eq_zero (beq_iff_eq.mp hx)
  have hpow := zpow_mul_pow_toNat_neg two_pos x.exponent
  have hpos : (0 : ℚ) < 2 ^ (-x.exponent).toNat := by
    positivity
  have hcancel : (x.integerPart : ℚ) * 2 ^ (-x.exponent).toNat =
      x.significand * 2 ^ x.exponent.toNat := by
    exact_mod_cast Nat.div_mul_cancel hdvd
  apply mul_right_cancel₀ hpos.ne'
  push_cast at hpow
  rw [hcancel, ← hpow, ← mul_assoc]
  rfl

/-- If the units in the last place divide one, an integer in the interval is the number itself. -/
theorem isIntegral_of_contains (hexponent : x.exponent < 0) {n : Nat}
    (h : (Interval.of x).Contains n) : x.isIntegral = true := by
  have hscale : Nat.pow 2 (x.exponent - 2).toNat = 1 := by
    rw [Int.toNat_of_nonpos (by omega)]
  have hden : (Interval.of x).den = 4 * Nat.pow 2 (-x.exponent).toNat := by
    have hadd : (-(x.exponent - 2)).toNat = 2 + (-x.exponent).toNat := by
      omega
    change Nat.pow 2 (-(x.exponent - 2)).toNat = _
    rw [hadd]
    exact Nat.pow_add 2 2 _
  have hlow : 4 * x.significand - x.margin ≤ n * (4 * Nat.pow 2 (-x.exponent).toNat) := by
    have hle : (4 * x.significand - x.margin) * Nat.pow 2 (x.exponent - 2).toNat ≤
        n * (Interval.of x).den := by
      exact_mod_cast h.low
    rwa [hscale, mul_one, hden] at hle
  have hhigh : n * (4 * Nat.pow 2 (-x.exponent).toNat) ≤ 4 * x.significand + 2 := by
    have hle : n * (Interval.of x).den ≤
        (4 * x.significand + 2) * Nat.pow 2 (x.exponent - 2).toNat := by
      exact_mod_cast h.high
    rwa [hscale, mul_one, hden] at hle
  have hmargin : x.margin ≤ 2 := by
    rw [margin]
    split <;> omega
  -- two multiples of four that differ by two at most are equal
  rw [mul_left_comm] at hlow hhigh
  have hsignificand : x.significand = n * Nat.pow 2 (-x.exponent).toNat := by
    omega
  have hone : Nat.pow 2 x.exponent.toNat = 1 := by
    rw [Int.toNat_of_nonpos hexponent.le]
  rw [isIntegral, hone, mul_one, hsignificand, Nat.mul_mod_left]
  rfl

theorem exponent_shortest_neg (hx : x.magnitude ≠ 0) (hfraction : x.isIntegral = false) :
    x.shortest.exponent < 0 := by
  by_contra! hnonneg
  obtain ⟨n, hn⟩ : ∃ n : Nat, x.shortest.value = n := by
    refine ⟨x.shortest.digits * 10 ^ x.shortest.exponent.toNat, ?_⟩
    rw [Decimal.value, Nat.cast_mul, Nat.cast_pow, ← zpow_natCast, Int.toNat_of_nonneg hnonneg]
    rfl
  have hcontains := contains_shortest hx
  rw [hn] at hcontains
  rw [isIntegral_of_contains (exponent_neg hfraction) hcontains] at hfraction
  cases hfraction

end Binary32

end Shading
