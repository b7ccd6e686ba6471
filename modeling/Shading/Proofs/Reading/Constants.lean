import Mathlib.Data.List.TakeWhile
import Shading.Number.Text
import Shading.Proofs.Number.Shortest
import Shading.Type

/-!
# Reading constants

The constants that both target languages share.  A number with a point or an exponent is a float,
and without either it is an integer.

    constant ::= "-"? number | "true" | "false"
    number   ::= digits | digits "u" | digits "." digits exponent? | digits exponent
    exponent ::= "e" "-"? digits

Main statement: the text of a finite float reads as a decimal whose nearest float it is.
-/

namespace Shading.Reading

/-! ### Numbers -/

/-- What a constant stands for.  A float is the exact value of its decimal. -/
inductive Constant where
  | int (n : Int)
  | uint (n : Nat)
  | float (q : ℚ)
  | bool (b : Bool)
  deriving DecidableEq, Repr

namespace Constant

def kind : Constant → Scalar
  | int _ => .int
  | uint _ => .uint
  | float _ => .float
  | bool _ => .bool

/-- Only signed numbers have a sign. -/
def neg? : Constant → Option Constant
  | int n => some (int (-n))
  | float q => some (float (-q))
  | _ => none

end Constant

/-- The number that digits write. -/
def numeral (s : List Char) : Nat :=
  Nat.ofDigitChars 10 s 0

def whole? (s : List Char) : Option Nat :=
  if s ≠ [] ∧ s.all Char.isDigit then some (numeral s) else none

/-- What follows the mark of an exponent. -/
def exponent? : List Char → Option Int
  | '-' :: s => (whole? s).map fun n : Nat ↦ -(n : Int)
  | s => (whole? s).map Int.ofNat

/-- What follows the digits of a float. -/
def scale? : List Char → Option Int
  | [] => some 0
  | 'e' :: s => exponent? s
  | _ => none

def number? (s : List Char) : Option Constant :=
  let whole := s.takeWhile Char.isDigit
  if whole = [] then none
  else match s.dropWhile Char.isDigit with
    | [] => some (.int (numeral whole))
    | 'u' :: rest => if rest = [] then some (.uint (numeral whole)) else none
    | '.' :: rest =>
      let fraction := rest.takeWhile Char.isDigit
      if fraction = [] then none
      else (scale? (rest.dropWhile Char.isDigit)).map fun e : Int ↦
        .float (numeral (whole ++ fraction) * 10 ^ (e - fraction.length))
    | rest => (scale? rest).map fun e : Int ↦ .float (numeral whole * 10 ^ e)

def bool? (s : List Char) : Option Constant :=
  if s = "true".toList then some (.bool true)
  else if s = "false".toList then some (.bool false)
  else none

def constant? : List Char → Option Constant
  | '-' :: s => (number? s).bind Constant.neg?
  | s => (number? s).or (bool? s)

/-! ### Digits -/

section

variable {p : Char → Bool} {s rest : List Char} (hs : ∀ c ∈ s, p c = true)
variable (hrest : ∀ c ∈ rest.head?, p c = false)

include hs hrest

/-- A run of characters ends where the next one is of another kind. -/
theorem takeWhile_append_of_head : (s ++ rest).takeWhile p = s := by
  rw [List.takeWhile_append_of_pos hs]
  cases rest with
  | nil => rw [List.takeWhile_nil, List.append_nil]
  | cons c rest => rw [List.takeWhile_cons_of_neg (by simp [hrest c rfl]), List.append_nil]

theorem dropWhile_append_of_head : (s ++ rest).dropWhile p = rest := by
  rw [List.dropWhile_append_of_pos hs]
  cases rest with
  | nil => rfl
  | cons c rest => rw [List.dropWhile_cons_of_neg (by simp [hrest c rfl])]

end

/-- A text of digits only, at least one of them. -/
def Digits (s : List Char) : Prop :=
  s ≠ [] ∧ ∀ c ∈ s, c.isDigit = true

theorem digits_toDigits (n : Nat) : Digits (Nat.toDigits 10 n) :=
  ⟨Nat.toDigits_ne_nil, fun _ ↦ Nat.isDigit_of_mem_toDigits (by norm_num) le_rfl⟩

theorem notMem_toDigits {c : Char} (hc : c.isDigit = false) (n : Nat) :
    c ∉ Nat.toDigits 10 n := by
  intro h
  rw [(digits_toDigits n).2 c h] at hc
  cases hc

theorem toList_toString (n : Nat) : (toString n).toList = Nat.toDigits 10 n :=
  Nat.toList_repr

@[simp] theorem numeral_toDigits (n : Nat) : numeral (Nat.toDigits 10 n) = n :=
  Nat.ofDigitChars_ten_toDigits

theorem numeral_zeros_append (n : Nat) (s : List Char) :
    numeral (List.replicate n '0' ++ s) = numeral s := by
  rw [numeral, Nat.ofDigitChars_append, Nat.ofDigitChars_replicate_zero, mul_zero, numeral]

theorem numeral_append_zero (s : List Char) : numeral (s ++ ['0']) = 10 * numeral s := by
  rw [numeral, Nat.ofDigitChars_append]
  rfl

namespace Digits

variable {s : List Char}

theorem whole?_eq (hs : Digits s) : whole? s = some (numeral s) :=
  if_pos ⟨hs.1, List.all_eq_true.mpr hs.2⟩

theorem exponent?_eq (hs : Digits s) : exponent? s = some (numeral s : Int) := by
  rw [exponent?, hs.whole?_eq]
  · rfl
  · rintro rest rfl
    exact absurd (hs.2 '-' List.mem_cons_self) (by decide)

variable {rest : List Char} (hrest : ∀ c ∈ rest.head?, c.isDigit = false)

include hrest

theorem takeWhile_append (hs : Digits s) : (s ++ rest).takeWhile Char.isDigit = s :=
  takeWhile_append_of_head hs.2 hrest

theorem dropWhile_append (hs : Digits s) : (s ++ rest).dropWhile Char.isDigit = rest :=
  dropWhile_append_of_head hs.2 hrest

end Digits

theorem exponent?_toString (k : Int) : exponent? (toString k).toList = some k := by
  rw [Int.toString_eq_repr, Int.repr_eq_if]
  split
  · next hk =>
    rw [Nat.toList_repr, (digits_toDigits _).exponent?_eq, numeral_toDigits, Int.toNat_of_nonneg hk]
  · next hk =>
    have hminus : "-".toList = ['-'] := by
      simp
    rw [String.toList_append, Nat.toList_repr, hminus, List.singleton_append, exponent?,
      (digits_toDigits _).whole?_eq, numeral_toDigits, Option.map_some]
    congr 1
    omega

/-! ### Numbers as they are written -/

section

variable {s : List Char} (hs : Digits s)

include hs

theorem number?_int : number? s = some (.int (numeral s)) := by
  have htake : s.takeWhile Char.isDigit = s := List.takeWhile_eq_self_iff.mpr hs.2
  have hdrop : s.dropWhile Char.isDigit = [] := List.dropWhile_eq_nil_iff.mpr hs.2
  rw [number?, htake, hdrop, if_neg hs.1]

theorem number?_uint : number? (s ++ ['u']) = some (.uint (numeral s)) := by
  have hmark : ∀ c ∈ ['u'].head?, c.isDigit = false := by
    simp
  rw [number?, hs.takeWhile_append hmark, hs.dropWhile_append hmark, if_neg hs.1]
  rfl

theorem number?_exponent {e : List Char} {k : Int} (he : exponent? e = some k) :
    number? (s ++ 'e' :: e) = some (.float (numeral s * 10 ^ k)) := by
  have hmark : ∀ c ∈ ('e' :: e).head?, c.isDigit = false := by
    simp
  rw [number?, hs.takeWhile_append hmark, hs.dropWhile_append hmark, if_neg hs.1]
  change (exponent? e).map _ = _
  rw [he]
  rfl

theorem number?_point {f : List Char} (hf : Digits f) (rest : List Char)
    (hrest : ∀ c ∈ rest.head?, c.isDigit = false) {k : Int} (hk : scale? rest = some k) :
    number? (s ++ '.' :: (f ++ rest)) =
      some (.float (numeral (s ++ f) * 10 ^ (k - f.length))) := by
  have hmark : ∀ c ∈ ('.' :: (f ++ rest)).head?, c.isDigit = false := by
    simp
  rw [number?, hs.takeWhile_append hmark, hs.dropWhile_append hmark, if_neg hs.1]
  change (if (f ++ rest).takeWhile Char.isDigit = [] then none else _) = _
  rw [hf.takeWhile_append hrest, hf.dropWhile_append hrest, if_neg hf.1, hk]
  rfl

end

/-! ### Decimals -/

theorem number?_integral (n : Nat) : number? (toString n ++ ".0").toList = some (.float n) := by
  have hzero : Digits ['0'] := ⟨List.cons_ne_nil _ _, by simp⟩
  have htext : (toString n ++ ".0").toList = Nat.toDigits 10 n ++ '.' :: (['0'] ++ []) := by
    rw [String.toList_append, toList_toString]
    simp
  rw [htext, number?_point (digits_toDigits n) hzero [] (by simp) rfl, numeral_append_zero,
    numeral_toDigits]
  norm_num
  ring

/-- One digit stands in front of the point, and the exponent makes up for the others. -/
theorem number?_scientific (d : Decimal) : number? d.scientific.toList = some (.float d.value) := by
  have hdigits := digits_toDigits d.digits
  have hvalue := numeral_toDigits d.digits
  rw [Decimal.scientific, String.toList_append, String.toList_append, toList_toString]
  generalize Nat.toDigits 10 d.digits = s at hdigits hvalue ⊢
  have hexponent := exponent?_toString (d.exponent + s.length - 1)
  rw [Decimal.value, ← hvalue]
  rcases s with - | ⟨c, - | ⟨c', rest⟩⟩
  · exact absurd rfl hdigits.1
  · simp only [String.toList_ofList, String.reduceToList]
    change number? ([c] ++ 'e' :: (toString (d.exponent + [c].length - 1)).toList) = _
    rw [number?_exponent hdigits hexponent]
    congr 4
    simp
  · have hfirst : Digits [c] := ⟨List.cons_ne_nil _ _, by simpa using hdigits.2 c⟩
    have hothers : Digits (c' :: rest) :=
      ⟨List.cons_ne_nil _ _, fun x hx ↦ hdigits.2 x (List.mem_cons_of_mem c hx)⟩
    simp only [String.toList_ofList, String.reduceToList]
    rw [List.append_assoc]
    change number? ([c] ++ '.' :: ((c' :: rest) ++
      'e' :: (toString (d.exponent + (c :: c' :: rest).length - 1)).toList)) = _
    rw [number?_point hfirst hothers ('e' :: _) (by simp) hexponent]
    congr 4
    push_cast [List.length_cons]
    ring

/-- A point in front of the last digits. -/
theorem number?_split {s : List Char} (hs : ∀ c ∈ s, c.isDigit = true) {n : Nat} (hn : n ≠ 0)
    (hlength : n < s.length) :
    number? (s.take (s.length - n) ++ '.' :: s.drop (s.length - n)) =
      some (.float (numeral s * 10 ^ (-(n : Int)))) := by
  have hwhole : Digits (s.take (s.length - n)) := by
    refine ⟨?_, fun c hc ↦ hs c (List.mem_of_mem_take hc)⟩
    rw [← List.length_pos_iff, List.length_take]
    omega
  have hfraction : Digits (s.drop (s.length - n)) := by
    refine ⟨?_, fun c hc ↦ hs c (List.mem_of_mem_drop hc)⟩
    rw [← List.length_pos_iff, List.length_drop]
    omega
  have hread := number?_point hwhole hfraction [] (by simp) rfl
  rw [List.append_nil, List.take_append_drop, List.length_drop] at hread
  rw [hread]
  congr 4
  omega

/-- Zeros fill the places in front of the digits. -/
theorem number?_positional {d : Decimal} (h : d.exponent < 0) :
    number? d.positional.toList = some (.float d.value) := by
  have hplaces : (-d.exponent).toNat ≠ 0 := by
    omega
  rw [Decimal.positional, if_neg hplaces, String.toList_append, String.toList_append,
    String.toList_ofList, String.toList_ofList, ← String.length_toList, toList_toString,
    Decimal.value]
  have hdigits := digits_toDigits d.digits
  have hvalue := numeral_toDigits d.digits
  generalize Nat.toDigits 10 d.digits = s at hdigits hvalue ⊢
  rw [← hvalue, ← numeral_zeros_append ((-d.exponent).toNat + 1 - s.length) s]
  have hpadded : ∀ c ∈ List.replicate ((-d.exponent).toNat + 1 - s.length) '0' ++ s,
      c.isDigit = true := by
    intro c hc
    rcases List.mem_append.mp hc with hc | hc
    · rw [List.eq_of_mem_replicate hc]
      rfl
    · exact hdigits.2 c hc
  have hlength : (-d.exponent).toNat <
      (List.replicate ((-d.exponent).toNat + 1 - s.length) '0' ++ s).length := by
    rw [List.length_append, List.length_replicate]
    omega
  have hread := number?_split hpadded hplaces hlength
  rw [Int.toNat_of_nonneg (by omega), neg_neg] at hread
  simpa using hread

/-! ### Floats -/

/-- The three ways to write a float all give a decimal between the midpoints around it. -/
theorem number?_text {x : Binary32} (hx : x.isFinite = true) :
    ∃ q, number? x.text.toList = some (.float q) ∧ Binary32.Around x.magnitude q := by
  rw [Binary32.text, Binary32.isNaN_of_isFinite hx, Binary32.isInfinite_of_isFinite hx]
  by_cases hzero : x.magnitude = 0
  · refine ⟨0, ?_, ?_⟩
    · rw [Binary32.isZero, hzero]
      exact_mod_cast number?_integral 0
    · rw [hzero]
      simpa using Binary32.around_valueAt 0
  · rw [Binary32.isZero, beq_eq_false_iff_ne.mpr hzero]
    cases x.isPositional with
    | false => exact ⟨_, number?_scientific _, Binary32.around_shortest hzero⟩
    | true =>
        cases hintegral : x.isIntegral with
        | false =>
            exact ⟨_, number?_positional (Binary32.exponent_shortest_neg hzero hintegral),
              Binary32.around_shortest hzero⟩
        | true =>
            refine ⟨_, number?_integral _, ?_⟩
            rw [Binary32.integerPart_eq hintegral]
            exact Binary32.around_valueAt _

/-! ### Constants with their signs -/

theorem exists_digit_of_number? {s : List Char} {c : Constant} (h : number? s = some c) :
    ∃ d rest, s = d :: rest ∧ d.isDigit = true := by
  cases s with
  | nil => cases h
  | cons d rest =>
      refine ⟨d, rest, rfl, ?_⟩
      by_contra hd
      rw [number?, List.takeWhile_cons_of_neg hd, if_pos rfl] at h
      cases h

theorem constant?_of_number? {s : List Char} {c : Constant} (h : number? s = some c) :
    constant? s = some c := by
  obtain ⟨d, rest, rfl, hd⟩ := exists_digit_of_number? h
  rw [constant?, h]
  · rfl
  · rintro rest' hminus
    rw [(List.cons.inj hminus).1] at hd
    cases hd

theorem constant?_minus {s : List Char} {c : Constant} (h : number? s = some c) :
    constant? ('-' :: s) = c.neg? := by
  rw [constant?, h, Option.bind_some]

/-! ### Separators -/

/-- A character that separates nothing. -/
def Solid (c : Char) : Prop :=
  c ≠ '(' ∧ c ≠ ',' ∧ c ≠ ' '

instance (c : Char) : Decidable (Solid c) :=
  inferInstanceAs (Decidable (_ ∧ _ ∧ _))

theorem solid_of_isDigit {c : Char} (h : c.isDigit = true) : Solid c := by
  refine ⟨?_, ?_, ?_⟩ <;>
    · rintro rfl
      cases h

theorem solid_of_whole? {s : List Char} {n : Nat} (h : whole? s = some n) : ∀ c ∈ s, Solid c := by
  rw [whole?] at h
  split at h
  · next hs => exact fun c hc ↦ solid_of_isDigit (List.all_eq_true.mp hs.2 c hc)
  · cases h

theorem solid_of_exponent? {s : List Char} {k : Int} (h : exponent? s = some k) :
    ∀ c ∈ s, Solid c := by
  unfold exponent? at h
  split at h <;> obtain ⟨n, hn, -⟩ := Option.map_eq_some_iff.mp h
  · rw [List.forall_mem_cons]
    exact ⟨by decide, solid_of_whole? hn⟩
  · exact solid_of_whole? hn

theorem solid_of_scale? {s : List Char} {k : Int} (h : scale? s = some k) : ∀ c ∈ s, Solid c := by
  unfold scale? at h
  split at h
  · exact fun _ ↦ List.not_mem_nil.elim
  · rw [List.forall_mem_cons]
    exact ⟨by decide, solid_of_exponent? h⟩
  · cases h

/-- Characters are plain if those after the digits in front are. -/
theorem solid_of_dropWhile {s : List Char} (h : ∀ c ∈ s.dropWhile Char.isDigit, Solid c) :
    ∀ c ∈ s, Solid c := by
  intro c hc
  rw [← List.takeWhile_append_dropWhile (p := Char.isDigit) (l := s), List.mem_append] at hc
  rcases hc with hc | hc
  · exact solid_of_isDigit (List.mem_takeWhile_imp hc)
  · exact h c hc

theorem solid_of_number? {s : List Char} {k : Constant} (h : number? s = some k) :
    ∀ c ∈ s, Solid c := by
  apply solid_of_dropWhile
  rw [number?] at h
  split at h
  · cases h
  split at h
  · next hrest =>
    rw [hrest]
    exact fun _ ↦ List.not_mem_nil.elim
  · next rest hrest =>
    rw [hrest, List.forall_mem_cons]
    split at h
    · next hnil =>
      rw [hnil]
      exact ⟨by decide, fun _ ↦ List.not_mem_nil.elim⟩
    · cases h
  · next rest hrest =>
    rw [hrest, List.forall_mem_cons]
    dsimp only at h
    split at h
    · cases h
    · obtain ⟨e, he, -⟩ := Option.map_eq_some_iff.mp h
      exact ⟨by decide, solid_of_dropWhile (solid_of_scale? he)⟩
  · obtain ⟨e, he, -⟩ := Option.map_eq_some_iff.mp h
    exact solid_of_scale? he

/-- Nothing that separates constants stands within one. -/
theorem solid_of_constant? {s : List Char} {k : Constant} (h : constant? s = some k) :
    ∀ c ∈ s, Solid c := by
  unfold constant? at h
  split at h
  · obtain ⟨k', hk', -⟩ := Option.bind_eq_some_iff.mp h
    rw [List.forall_mem_cons]
    exact ⟨by decide, solid_of_number? hk'⟩
  · rcases Option.or_eq_some_iff.mp h with h | ⟨-, h⟩
    · exact solid_of_number? h
    · rw [bool?] at h
      split at h
      · next htrue =>
        rw [htrue]
        simp [Solid]
      split at h
      · next hfalse =>
        rw [hfalse]
        simp [Solid]
      · cases h

end Shading.Reading
