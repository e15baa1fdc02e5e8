import AccessRules.Text.Units

/-!
# Hexadecimal text

Octets are written as two lower-case digits each; digits of either case are read. Numbers are
written in the fewest digits, with a sign in front when they are negative, and those that have more
than 53 binary digits with zeros at the end.
-/

namespace AccessRules.Hex

/-! ## Octets -/

/-- The two digits of an octet. -/
def pair (octet : UInt8) : List Char :=
  [Nat.digitChar (octet.toNat / 16), Nat.digitChar (octet.toNat % 16)]

/-- Octets as lower-case digits. -/
def encode (octets : Bytes) : String := String.ofList (octets.flatMap pair)

/-- Octets as upper-case digits. -/
def encodeUpper (octets : Bytes) : String :=
  String.ofList ((octets.flatMap pair).map Char.toUpper)

/-- The value of a digit of either case. -/
def digit? (c : Char) : Option Nat :=
  if '0' ≤ c ∧ c ≤ '9' then some (c.toNat - 48)
  else if 'a' ≤ c ∧ c ≤ 'f' then some (c.toNat - 87)
  else if 'A' ≤ c ∧ c ≤ 'F' then some (c.toNat - 55)
  else none

/-- The octet that two digits write. -/
def octet? (high low : Char) : Option UInt8 := do
  let h ← digit? high
  let l ← digit? low
  return UInt8.ofNat (16 * h + l)

/-- Reads pairs of digits and nothing else. -/
def readPairs : List Char → Option Bytes
  | [] => some []
  | [_] => none
  | high :: low :: rest => do
    let octet ← octet? high low
    let octets ← readPairs rest
    return octet :: octets

/-- Reads a text that is pairs of digits throughout. -/
def decode? (text : String) : Option Bytes := readPairs text.toList

/-- Reads the pairs of digits a text starts with and drops the rest. -/
def leadingPairs : List Char → Bytes
  | high :: low :: rest =>
    match octet? high low with
    | some octet => octet :: leadingPairs rest
    | none => []
  | _ => []

/-- Reads as many pairs of digits as the text starts with, where the low octet of every 16-bit unit
says which digit it is. -/
def decodeLeading (text : String) : Bytes :=
  leadingPairs ((Text.lowOctets text).map fun octet => Char.ofNat octet.toNat)

/-! ## Numbers -/

/-- A number in the fewest lower-case digits. -/
def number (n : Nat) : String := String.ofList (Nat.toDigits 16 n)

/-- A number in the fewest upper-case digits. -/
def numberUpper (n : Nat) : String := String.ofList ((Nat.toDigits 16 n).map Char.toUpper)

/-- How many of the last digits of a number have a place below the last of its first 53 binary
digits. -/
def blurredDigits (n : Nat) : Nat := (n.log2 - 52 + 3) / 4

/-- A number with upper-case digits, of which the blurred ones are written as zeros. -/
def sizeUpper (n : Nat) : String :=
  numberUpper (n / Nat.pow 16 (blurredDigits n)) ++
    String.ofList (List.replicate (blurredDigits n) '0')

/-- A signed number with upper-case digits: a minus sign, if any, and the digits of its size. -/
def signedUpper (n : Int) : String :=
  if n < 0 then "-" ++ sizeUpper n.natAbs else sizeUpper n.natAbs

/-- No digit of a number below `2 ^ 53` is blurred. -/
theorem sizeUpper_eq {n : Nat} (small : n < 9007199254740992) : sizeUpper n = numberUpper n := by
  have none : blurredDigits n = 0 := by
    by_cases zero : n = 0
    · rw [zero]
      decide
    · have few : n.log2 < 53 := (Nat.log2_lt zero).2 small
      simp only [blurredDigits]
      omega
  simp [sizeUpper, none]

example : sizeUpper 18446744073709551616 = "10000000000000000" := by decide +kernel

/-! ## Written octets read back -/

/-- The digit that is written is read. -/
theorem digit?_digitChar : ∀ n : Fin 16, digit? (Nat.digitChar n) = some n.val := by decide

/-- The two digits of an octet give it back. -/
theorem octet?_pair (octet : UInt8) :
    octet? (Nat.digitChar (octet.toNat / 16)) (Nat.digitChar (octet.toNat % 16)) = some octet := by
  have bound : octet.toNat < 256 := octet.toNat_lt
  have high := digit?_digitChar ⟨octet.toNat / 16, by omega⟩
  have low := digit?_digitChar ⟨octet.toNat % 16, by omega⟩
  simp only at high low
  simp only [octet?, high, low, Option.pure_def, Option.bind_eq_bind, Option.bind_some,
    Nat.div_add_mod, UInt8.ofNat_toNat]

/-- So do those of all octets in a row. -/
theorem readPairs_flatMap_pair (octets : Bytes) :
    readPairs (octets.flatMap pair) = some octets := by
  induction octets with
  | nil => rfl
  | cons octet octets ih => simp [pair, readPairs, octet?_pair, ih]

/-- Digits written for octets read back as these octets. -/
theorem decode?_encode (octets : Bytes) : decode? (encode octets) = some octets := by
  simp [decode?, encode, readPairs_flatMap_pair]

end AccessRules.Hex
