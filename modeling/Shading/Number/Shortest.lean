import Shading.Number.Binary32

/-!
# Shortest decimals

The decimal with the fewest significant digits that reads back as a given positive finite number,
and among those the one nearest to the number.  The numbers that read back form an interval around
the number; its ends belong to it when the significand is even.  The search tries one digit, two
digits and so on; on each decimal grid only the two neighbours of the number can be nearest.
-/

namespace Shading

/-- The number `digits * 10 ^ exponent`. -/
structure Decimal where
  digits : Nat
  exponent : Int
  deriving DecidableEq, Repr

namespace Decimal

/-- The same number without trailing zeros among the digits. -/
def normalize (d : Decimal) : Decimal :=
  go d.digits d.digits d.exponent
where
  go : Nat → Nat → Int → Decimal
    | 0, n, e => ⟨n, e⟩
    | fuel + 1, n, e => if n ≠ 0 ∧ n % 10 = 0 then go fuel (n / 10) (e + 1) else ⟨n, e⟩

end Decimal

namespace Shortest

/-- The numbers that read back as a value: all fractions over `den` from `low` to `high`, the ends
included if `closed`. -/
structure Interval where
  low : Nat
  value : Nat
  high : Nat
  den : Nat
  closed : Bool

/-- The interval of a positive finite number, in quarters of its last place. -/
def Interval.of (x : Binary32) : Interval :=
  let quarter := x.exponent - 2
  let scale := Nat.pow 2 quarter.toNat
  let m := 4 * x.significand
  { low := (m - if x.narrowBelow then 1 else 2) * scale
    value := m * scale
    high := (m + 2) * scale
    den := Nat.pow 2 (-quarter).toNat
    closed := x.significand % 2 == 0 }

/-- Whether `t * 10 ^ k` lies in the interval. -/
def Interval.holds (i : Interval) (t : Nat) (k : Int) : Bool :=
  let n := t * Nat.pow 10 k.toNat * i.den
  let s := Nat.pow 10 (-k).toNat
  if i.closed then i.low * s ≤ n && n ≤ i.high * s else i.low * s < n && n < i.high * s

/-- The neighbour of the value on the grid of multiples of `10 ^ k` that reads back.  If both
do, the nearer one, and the upper one when they are equally near. -/
def Interval.onGrid? (i : Interval) (k : Int) : Option Nat :=
  let num := i.value * Nat.pow 10 (-k).toNat
  let den := i.den * Nat.pow 10 k.toNat
  let t := num / den
  let upperIsNear : Bool := den ≤ 2 * (num % den)
  match i.holds t k, i.holds (t + 1) k with
  | true, true => some (if upperIsNear then t + 1 else t)
  | true, false => some t
  | false, true => some (t + 1)
  | false, false => none

/-- The first grid with a hit, from `10 ^ k` downwards. -/
def Interval.search (i : Interval) : Nat → Int → Option Decimal
  | 0, _ => none
  | fuel + 1, k =>
    match i.onGrid? k with
    | some t => some ⟨t, k⟩
    | none => search i fuel (k - 1)

/-- The largest `k` with `10 ^ k ≤ num / den`, searched downwards from `k`. -/
def leadingPlace (num den : Nat) : Nat → Int → Int
  | 0, k => k
  | fuel + 1, k =>
    if den * Nat.pow 10 k.toNat ≤ num * Nat.pow 10 (-k).toNat then k
    else leadingPlace num den fuel (k - 1)

end Shortest

/-- The shortest decimal of the absolute value of a non-zero finite number.  Absolute values lie
between `10 ^ (-46)` and `10 ^ 39`, and nine digits always suffice. -/
def Binary32.shortest (x : Binary32) : Decimal :=
  let i := Shortest.Interval.of x
  let k := Shortest.leadingPlace i.value i.den 85 39
  ((i.search 9 k).getD ⟨x.integerPart, 0⟩).normalize

end Shading
