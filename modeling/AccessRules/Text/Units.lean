import AccessRules.Bytes

/-!
# Texts in one octet per unit

A package name travels as one octet per 16-bit unit of its text: the low octet of the unit. It is
read back from the low seven bits of every octet.
-/

namespace AccessRules.Text

/-- The 16-bit units of a character: itself, or its two surrogates above `0xFFFF`. -/
def units (c : Char) : List Nat :=
  let n := c.toNat
  if n ≤ 0xffff then [n]
  else [0xd800 + (n - 0x10000) / 0x400, 0xdc00 + (n - 0x10000) % 0x400]

/-- The low octet of every 16-bit unit of a text. -/
def lowOctets (text : String) : Bytes :=
  (text.toList.flatMap units).map fun unit => UInt8.ofNat unit

/-- The text that the low seven bits of every octet spell. -/
def ofSevenBit (octets : Bytes) : String :=
  String.ofList (octets.map fun octet => Char.ofNat (octet.toNat % 128))

example : lowOctets "aé" = [0x61, 0xe9] := by decide
example : ofSevenBit [0x61, 0xe9] = "ai" := by decide

end AccessRules.Text
