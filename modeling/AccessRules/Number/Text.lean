import AccessRules.Number.Basic

/-!
# Numbers as text

A number is written in the fewest decimal digits for which it is the nearest number, and of those
that are as few in the ones nearest to it. Where the point stands among the digits, or which power
of ten stands behind them, depends on the size.
-/

namespace AccessRules.Number

/-! ## The fewest digits -/

/-- `readsBack m e c p` says that the nearest number to `c * 10 ^ p` is `m * 2 ^ e`. Numbers lie
half as far apart below the least mantissa as above it, and of two numbers that are equally near the
one with the even mantissa counts. -/
def readsBack (m : Nat) (e : Int) (c : Nat) (p : Int) : Bool :=
  let decimal := 4 * c * (Nat.pow 10 p.toNat * Nat.pow 2 (-e).toNat)
  let unit := Nat.pow 10 (-p).toNat * Nat.pow 2 e.toNat
  let below := if m = leastMantissa ∧ leastExponent < e then 4 * m - 1 else 4 * m - 2
  let above := 4 * m + 2
  if m % 2 = 0 then below * unit ≤ decimal && decimal ≤ above * unit
  else below * unit < decimal && decimal < above * unit

/-- The multiple of `10 ^ p` nearest to `m * 2 ^ e` of the two around it that read back as this
number, unless it is smaller than all multiples but zero. -/
def onGrid? (m : Nat) (e p : Int) : Option Nat :=
  let top := m * (Nat.pow 2 e.toNat * Nat.pow 10 (-p).toNat)
  let bottom := Nat.pow 2 (-e).toNat * Nat.pow 10 p.toNat
  let below := top / bottom
  if below = 0 then none
  else
    match readsBack m e below p, readsBack m e (below + 1) p with
    | true, true => some (nearestQuotient top bottom)
    | true, false => some below
    | false, true => some (below + 1)
    | false, false => none

/-- The whole number and the power of ten of which `m * 2 ^ e` is the product, or the nearest number
to it, for the greatest power that there is. Seventeen digits are always enough. -/
def shortest (m : Nat) (e : Int) : Nat × Int :=
  let greatest := (e + 53) * 30103 / 100000 + 1
  let powers := (List.range 24).map fun (step : Nat) => greatest - step
  (powers.findSome? fun p => (onGrid? m e p).map fun c => (c, p)).getD (m, 0)

/-! ## Where the point stands -/

/-- Numbers with at most so many digits in front of the point are written without a power. -/
def mostDigits : Int := 21

/-- Fractions with less than so many zeros behind the point are written without a power. -/
def mostZeros : Int := 6

/-- The power of ten behind digits that have one digit in front of their point. -/
def powerText (power : Int) : List Char :=
  'e' :: (if power < 0 then '-' else '+') :: Nat.toDigits 10 power.natAbs

/-- Digits with the point behind the first `point` of them. -/
def layout (digits : List Char) (point : Int) : List Char :=
  if digits.length ≤ point ∧ point ≤ mostDigits then
    digits ++ List.replicate (point.toNat - digits.length) '0'
  else if 0 < point ∧ point ≤ mostDigits then
    digits.take point.toNat ++ '.' :: digits.drop point.toNat
  else if -mostZeros < point ∧ point ≤ 0 then
    '0' :: '.' :: List.replicate (-point).toNat '0' ++ digits
  else
    match digits with
    | first :: second :: more => first :: '.' :: second :: more ++ powerText (point - 1)
    | digits => digits ++ powerText (point - 1)

/-- Digits without the zeros at their end. -/
def withoutZeros (digits : List Char) : List Char := (digits.reverse.dropWhile (· = '0')).reverse

/-- The greatest exponent of a number that has a text in digits. -/
def greatestExponent : Int := 971

/-- The text of `m * 2 ^ e`. -/
def sizeText (m : Nat) (e : Int) : String :=
  if m = 0 then "0"
  else if greatestExponent < e then "Infinity"
  else
    let (c, p) := shortest m e
    let digits := Nat.toDigits 10 c
    String.ofList (layout (withoutZeros digits) (digits.length + p))

/-- The text of a number. -/
def text (x : Number) : String :=
  if x.mantissa < 0 then "-" ++ sizeText x.mantissa.natAbs x.exponent
  else sizeText x.mantissa.natAbs x.exponent

example : (ofDecimal 1 7).text = "1e-7" ∧ (ofDecimal (-1250) 2).text = "-12.5" := by decide +kernel
example : (ofInt 18446744073709551616).text = "18446744073709552000" := by decide +kernel

end AccessRules.Number

namespace AccessRules

/-- The text of a whole number: every digit of one that 53 binary digits write, and the text of the
nearest number otherwise. -/
def numeral (n : Int) : String :=
  if n.natAbs ≤ 2 * leastMantissa then toString n else (Number.ofInt n).text

example : numeral 1000000000000000000000 = "1e+21" := by decide +kernel

end AccessRules
