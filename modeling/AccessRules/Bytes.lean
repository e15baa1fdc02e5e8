/-!
# Strings of octets

Octets are kept in lists, so that every codec in this library is a recursion over its input.
This module holds what the codecs share: whole numbers as octets, most significant octet first.
-/

namespace AccessRules

/-- A string of octets. -/
abbrev Bytes := List UInt8

/-! ## Whole numbers, most significant octet first -/

/-- `bigEndian width n` is the low `width` octets of `n`, most significant first. -/
def bigEndian : (width n : Nat) → Bytes
  | 0, _ => []
  | width + 1, n => bigEndian width (n / 256) ++ [UInt8.ofNat n]

/-- The number that octets write, most significant first. -/
def ofBigEndian (octets : Bytes) : Nat := octets.foldl (fun n octet => n * 256 + octet.toNat) 0

/-- How many octets a number up to `0xFFFFFF` needs, at least one. -/
def octetCount (n : Nat) : Nat := if n ≤ 0xff then 1 else if n ≤ 0xffff then 2 else 3

/-- The fewest octets that write a number up to `0xFFFFFF`. -/
def shortest (n : Nat) : Bytes := bigEndian (octetCount n) n

/-- A number takes as many octets as it is given. -/
theorem length_bigEndian (width n : Nat) : (bigEndian width n).length = width := by
  induction width generalizing n with
  | zero => rfl
  | succ width ih => rw [bigEndian, List.length_append, ih, List.length_singleton]

theorem length_shortest (n : Nat) : (shortest n).length = octetCount n := length_bigEndian _ _

/-- Every number takes an octet, and so does zero. -/
theorem octetCount_pos (n : Nat) : 0 < octetCount n := by
  unfold octetCount
  repeat' split
  all_goals decide

example : shortest 0xdf21 = [0xdf, 0x21] := by decide
example : ofBigEndian [0x01, 0x00, 0x02] = 65538 := by decide

end AccessRules
