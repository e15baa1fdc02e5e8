/-!
# Binary numbers

Callers write numbers of any size and with any fraction. A number has room for 53 binary digits,
and a fraction that needs more stands for the nearest number that there is. Whole numbers up to
`2 ^ 53` in size are numbers themselves, by `nearestWhole_eq_self`.
-/

namespace AccessRules

/-! ## Rounding -/

/-- The whole number nearest to `n / d`; of two that are equally near, the even one. -/
def nearestQuotient (n d : Nat) : Nat :=
  let below := n / d
  let twice := 2 * (n % d)
  if twice < d ∨ twice = d ∧ below % 2 = 0 then below else below + 1

/-- `overPower n d e` is the fraction `n / d` divided by `2 ^ e`. -/
def overPower (n d : Nat) (e : Int) : Nat × Nat :=
  (n * Nat.pow 2 (-e).toNat, d * Nat.pow 2 e.toNat)

/-- The least whole number with 53 binary digits. -/
def leastMantissa : Nat := 4503599627370496

/-- The least exponent of a number. -/
def leastExponent : Int := -1074

/-- The exponent of the last of the 53 binary digits of `n / d`. -/
def lastExponent (n d : Nat) : Int :=
  let e : Int := (n.log2 : Int) - d.log2 - 52
  let (top, bottom) := overPower n d e
  max leastExponent (if top < leastMantissa * bottom then e - 1 else e)

/-! ## Numbers -/

/-- The number `mantissa * 2 ^ exponent`. -/
structure Number where
  mantissa : Int
  exponent : Int
  deriving DecidableEq, Repr

namespace Number

/-- The number nearest to `n / d`; of two that are equally near, the one whose last digit is even.
Its mantissa has 53 digits or its exponent is the least one. -/
def nearest (n : Int) (d : Nat) : Number :=
  let e := lastExponent n.natAbs d
  let (top, bottom) := overPower n.natAbs d e
  let m := nearestQuotient top bottom
  if m = 2 * leastMantissa then ⟨n.sign * leastMantissa, e + 1⟩ else ⟨n.sign * m, e⟩

/-- The number nearest to a whole number. -/
def ofInt (n : Int) : Number := nearest n 1

/-- The number nearest to `mantissa / 10 ^ places`. -/
def ofDecimal (mantissa : Int) (places : Nat) : Number := nearest mantissa (Nat.pow 10 places)

/-- The numerator of the number as a fraction over `denominator`. -/
def numerator (x : Number) : Int := x.mantissa * Nat.pow 2 x.exponent.toNat

/-- A power of two over which the number is a fraction. -/
def denominator (x : Number) : Nat := Nat.pow 2 (-x.exponent).toNat

/-- The whole number nearest to it in the direction of zero. -/
def truncate (x : Number) : Int := x.numerator.tdiv x.denominator

/-- The least whole number that is not below it. -/
def ceiling (x : Number) : Int := -(Int.fdiv (-x.numerator) x.denominator)

/-- The whole number that it is, if it is one. -/
def whole? (x : Number) : Option Int :=
  if x.numerator % x.denominator = 0 then some x.truncate else none

/-- The natural number that it is, if it is one. -/
def nat? (x : Number) : Option Nat := do
  let n ← x.whole?
  if n < 0 then none else some n.toNat

/-- The octet that it counts to from zero, wrapping around at 256. -/
def octet (x : Number) : UInt8 := UInt8.ofNat (x.truncate % 256).toNat

example : octet (ofDecimal (-15) 1) = 255 := by decide
example : nat? (ofDecimal 1270 1) = some 127 ∧ nat? (ofDecimal 5 1) = none := by decide

end Number

/-! ## Whole numbers -/

/-- The whole number that a caller who writes `n` means. -/
def nearestWhole (n : Int) : Int := (Number.ofInt n).truncate

/-- A whole number is nearest to itself. -/
theorem nearestQuotient_one (n : Nat) : nearestQuotient n 1 = n := by
  simp [nearestQuotient, Nat.mod_one]

/-- The highest digit of `n` becomes the first of 53 when `n` is multiplied by as many twos as it
has digits less than that. -/
theorem mul_pow_log2 {n : Nat} (positive : n ≠ 0) (small : n < 2 * leastMantissa) :
    n.log2 ≤ 52 ∧ leastMantissa ≤ n * Nat.pow 2 (52 - n.log2) ∧
      n * Nat.pow 2 (52 - n.log2) < 2 * leastMantissa := by
  have few : n.log2 < 53 := (Nat.log2_lt positive).2 small
  have least : Nat.pow 2 n.log2 ≤ n := Nat.log2_self_le positive
  have most : n < Nat.pow 2 n.log2 * 2 := Nat.lt_log2_self
  have all : Nat.pow 2 n.log2 * Nat.pow 2 (52 - n.log2) = leastMantissa := by
    have sum : Nat.pow 2 (n.log2 + (52 - n.log2)) = leastMantissa := by
      rw [Nat.add_sub_cancel' (by omega)]
      rfl
    exact (Nat.pow_add 2 n.log2 (52 - n.log2)).symm.trans sum
  have powerPos : 0 < Nat.pow 2 (52 - n.log2) := Nat.pow_pos (by decide)
  refine ⟨by omega, all ▸ Nat.mul_le_mul_right _ least, ?_⟩
  rw [← all, Nat.mul_comm 2, Nat.mul_right_comm]
  exact Nat.mul_lt_mul_of_pos_right most powerPos

/-- A whole number that 53 binary digits write is a number itself. -/
theorem Number.ofInt_eq {n : Int} (positive : n ≠ 0) (small : n.natAbs < 2 * leastMantissa) :
    Number.ofInt n =
      ⟨n.sign * (n.natAbs * Nat.pow 2 (52 - n.natAbs.log2) : Nat), n.natAbs.log2 - 52⟩ := by
  obtain ⟨few, least, most⟩ := mul_pow_log2 (Int.natAbs_ne_zero.2 positive) small
  have exponent : ((n.natAbs.log2 : Int) - (1 : Nat).log2 - 52) = n.natAbs.log2 - 52 := by
    have : (1 : Nat).log2 = 0 := by decide
    omega
  have places : (-((n.natAbs.log2 : Int) - 52)).toNat = 52 - n.natAbs.log2 := by omega
  have none : ((n.natAbs.log2 : Int) - 52).toNat = 0 := by omega
  have one : (1 : Nat) * Nat.pow 2 0 = 1 := rfl
  have last : lastExponent n.natAbs 1 = n.natAbs.log2 - 52 := by
    simp only [lastExponent, exponent, overPower, places, none, one, Nat.mul_one]
    rw [if_neg (by omega)]
    exact Int.max_eq_right (by simp only [leastExponent]; omega)
  simp only [ofInt, nearest, last, overPower, places, none, one, nearestQuotient_one]
  rw [if_neg (by omega)]

/-- Whole numbers up to `2 ^ 53` in size are numbers themselves. -/
theorem nearestWhole_eq_self {n : Int} (small : n.natAbs ≤ 2 * leastMantissa) :
    nearestWhole n = n := by
  by_cases zero : n = 0
  · rw [zero]
    decide
  by_cases largest : n.natAbs = 2 * leastMantissa
  · have : n = 9007199254740992 ∨ n = -9007199254740992 := by
      simp only [leastMantissa] at largest
      omega
    rcases this with rfl | rfl <;> decide
  have within : n.natAbs < 2 * leastMantissa := by omega
  have few := (mul_pow_log2 (Int.natAbs_ne_zero.2 zero) within).1
  have places : (-((n.natAbs.log2 : Int) - 52)).toNat = 52 - n.natAbs.log2 := by omega
  have none : ((n.natAbs.log2 : Int) - 52).toNat = 0 := by omega
  have powerPos : 0 < Nat.pow 2 (52 - n.natAbs.log2) := Nat.pow_pos (by decide)
  have power : Nat.pow 2 0 = 1 := rfl
  rw [nearestWhole, Number.ofInt_eq zero within, Number.truncate, Number.numerator,
    Number.denominator]
  simp only [places, none, power]
  rw [Int.natCast_mul, ← Int.mul_assoc, Int.sign_mul_natAbs, Int.natCast_one, Int.mul_one]
  exact Int.mul_tdiv_cancel n (by omega)

example : nearestWhole 9007199254740993 = 9007199254740992 := by decide
example : nearestWhole (-9007199254740995) = -9007199254740996 := by decide

end AccessRules
