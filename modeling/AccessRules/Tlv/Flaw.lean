import AccessRules.Bytes
import AccessRules.Hex
import AccessRules.Report

/-!
# What can be wrong with a data object

A tag or a length that has no encoding is a `RangeFlaw`. Octets that are no encoding have a
`Flaw`, located at an offset.
-/

namespace AccessRules

/-- Something at an offset into a string of octets. -/
structure Located (ε : Type) where
  reason : ε
  offset : Int
  deriving DecidableEq, Repr

/-- The same thing, in octets that start `start` further on. -/
def Located.shift {ε : Type} (start : Int) (located : Located ε) : Located ε :=
  { located with offset := start + located.offset }

namespace Tlv

/-- Why a tag or a length has no encoding. -/
inductive RangeFlaw
  /-- The tag is no whole number of at most three octets. -/
  | tagRange
  /-- The one octet of the tag announces another one. -/
  | tagAnnouncesMore (tag : Nat)
  /-- The tag has several octets, of which the first announces none. -/
  | tagAnnouncesNone (tag : Nat)
  /-- The octets after the first one do not end exactly at the last. -/
  | tagContinuation (tag : Nat)
  /-- The length is no whole number of at most three octets. -/
  | lengthRange
  deriving DecidableEq, Repr

/-- The wording of a range flaw. -/
def RangeFlaw.message : RangeFlaw → String
  | .tagRange => "Tag must be an integer between 0x00 and 0xFFFFFF"
  | .tagAnnouncesMore tag => "Tag " ++ Hex.number tag ++ " announces a subsequent tag byte"
  | .tagAnnouncesNone tag =>
    "Tag " ++ Hex.number tag ++ " has subsequent bytes but its first byte does not announce them"
  | .tagContinuation tag => "Tag " ++ Hex.number tag ++ " has an invalid subsequent byte"
  | .lengthRange => "Length must be an integer between 0 and 0xFFFFFF"

/-- The report of a range flaw. -/
def RangeFlaw.report (flaw : RangeFlaw) : Report := Report.range flaw.message

/-- Why octets are no data object. -/
inductive Flaw
  | truncatedTag
  /-- The tag has more than three octets. -/
  | longTag
  | truncatedLength
  | indefiniteLength
  /-- The length has more than three octets after the first. -/
  | wideLength (octets : Nat)
  /-- The length has a shorter form. -/
  | looseLength
  /-- The value is cut off. -/
  | shortValue (length remaining : Nat)
  deriving DecidableEq, Repr

/-- The wording of a flaw. -/
def Flaw.message : Flaw → String
  | .truncatedTag => "Truncated tag"
  | .longTag => "Tag longer than 3 bytes"
  | .truncatedLength => "Truncated length"
  | .indefiniteLength => "Indefinite length is not supported"
  | .wideLength octets => s!"Length field of {octets} bytes is not supported"
  | .looseLength => "Non-canonical length encoding"
  | .shortValue length remaining => s!"Length {length} exceeds remaining {remaining} bytes"

/-- The report of a located flaw. -/
def Flaw.report (flaw : Located Flaw) : Report := Report.tlv flaw.reason.message flaw.offset

end Tlv

end AccessRules
