import AccessRules.Number.Basic
import AccessRules.Tlv.Header

/-!
# Data objects

A data object is a tag, a length and a value. A string of octets is decoded into the objects that
it is the concatenation of, each with its place; what their values hold is left to the reader.
-/

namespace AccessRules.Tlv

/-! ## Writing -/

/-- The encoding of a data object. -/
def encode (tag : Nat) (value : Bytes) : Except RangeFlaw Bytes := do
  let tagOctets ← encodeTag tag
  let lengthOctets ← encodeLength value.length
  .ok (tagOctets ++ lengthOctets ++ value)

/-- The octets of a tag that is given as any number. -/
def encodeTagOf (tag : Number) : Except RangeFlaw Bytes :=
  match tag.nat? with
  | some tag => encodeTag tag
  | none => .error .tagRange

/-- The octets of a length that is given as any number. -/
def encodeLengthOf (length : Number) : Except RangeFlaw Bytes :=
  match length.nat? with
  | some length => encodeLength length
  | none => .error .lengthRange

/-- The encoding of a data object whose tag is given as any number. -/
def encodeOf (tag : Number) (value : Bytes) : Except RangeFlaw Bytes :=
  match tag.nat? with
  | some tag => encode tag value
  | none => .error .tagRange

/-! ## Reading -/

/-- A data object, where it starts and how many octets it takes. -/
structure Element where
  tag : Nat
  value : Bytes
  offset : Int
  size : Nat
  deriving DecidableEq, Repr

/-- The same object, in octets that start `start` further on. -/
def Element.shift (start : Int) (element : Element) : Element :=
  { element with offset := start + element.offset }

/-- The object in front, and the rest. -/
def readElement (octets : Bytes) : Except (Located Flaw) (Element × Bytes) := do
  let (header, rest) ← readHeader octets
  let value := rest.take header.length
  if value.length < header.length then
    .error ⟨.shortValue header.length value.length, 0⟩
  else .ok (⟨header.tag, value, 0, header.size + header.length⟩, rest.drop header.length)

/-- The object at an offset. -/
def readElementAt (offset : Int) (octets : Bytes) : Except (Located Flaw) Element :=
  (readAt readElement offset octets).map fun found => found.1.shift offset

/-- An element takes an octet at least. -/
theorem length_lt_of_readElement {octets rest : Bytes} {element : Element}
    (h : readElement octets = .ok (element, rest)) : rest.length < octets.length := by
  simp only [readElement, bind_eq_ok_iff, Prod.exists] at h
  obtain ⟨header, rest', readsHeader, h⟩ := h
  have shorter := length_lt_of_readHeader readsHeader
  split at h
  · contradiction
  · simp only [Except.ok.injEq, Prod.mk.injEq] at h
    rw [← h.2, List.length_drop]
    omega

/-- The objects that octets are the concatenation of, when the octets themselves start at
`start`. -/
def decodeFrom (start : Nat) (octets : Bytes) : Except (Located Flaw) (List Element) :=
  if octets = [] then .ok []
  else
    match h : readElement octets with
    | .error flaw => .error (flaw.shift start)
    | .ok (element, rest) =>
      have : rest.length < octets.length := length_lt_of_readElement h
      (decodeFrom (start + element.size) rest).map (element.shift start :: ·)
termination_by octets.length

/-- The objects that octets are the concatenation of. -/
def decode (octets : Bytes) : Except (Located Flaw) (List Element) := decodeFrom 0 octets

/-- The first object with a tag. -/
def find? (tag : Nat) (elements : List Element) : Option Element :=
  elements.find? (·.tag == tag)

example : encode 0xe6 [0, 0, 1] = .ok [0xe6, 3, 0, 0, 1] := rfl
example : readElementAt 2 [0xc0, 0, 0xd1, 2, 0] = .error ⟨.shortValue 2 1, 2⟩ := rfl

end AccessRules.Tlv
