import AccessRules.Proofs.Tlv.Header
import AccessRules.Rule.Encode

/-!
# Data objects have one written form

1. **One object** — reading an object takes its encoding off the front, and every encoding in front
   is read (`readElement_eq_ok_iff`).  The size of an object is the length of its encoding.

2. **Objects in a row** — `Laid start elements octets` says that the octets are the encodings of the
   elements one after the other, and that each element knows where it stands.  Decoding finds
   exactly these elements (`decodeFrom_eq_ok_iff`).

3. **Tags and values** — with the places left out, decoding undoes `encodeAll` and is undone by it
   (`decodeFrom_of_encodeAll`, `encodeAll_of_decodeFrom`), so a row of objects has one encoding and
   an encoding is that of one row (`encodeAll_injective`).
-/

namespace AccessRules

namespace Tlv

/-! ## One object -/

/-- An encoding is the tag, the length of the value and the value. -/
theorem encode_eq_ok_iff {tag : Nat} {value octets : Bytes} :
    encode tag value = .ok octets ↔
      ∃ first second, encodeTag tag = .ok first ∧ encodeLength value.length = .ok second ∧
        octets = first ++ second ++ value := by
  simp only [encode, bind_eq_ok_iff, Except.ok.injEq]
  constructor
  · rintro ⟨first, htag, second, hlength, rfl⟩
    exact ⟨first, second, htag, hlength, rfl⟩
  · rintro ⟨first, second, htag, hlength, rfl⟩
    exact ⟨first, htag, second, hlength, rfl⟩

/-- No data object is empty: there is a tag in front. -/
theorem encode_ne_nil {tag : Nat} {value octets : Bytes} (h : encode tag value = .ok octets) :
    octets ≠ [] := by
  obtain ⟨first, second, htag, -, rfl⟩ := encode_eq_ok_iff.mp h
  have hfirst : first ≠ [] := by
    rintro rfl
    exact (encodeTag_eq_ok_iff.mp htag).1
  simp [hfirst]

/-- Reading an object takes its encoding off the front. -/
theorem readElement_eq_ok_iff {octets rest : Bytes} {element : Element} :
    readElement octets = .ok (element, rest) ↔
      ∃ written, encode element.tag element.value = .ok written ∧ octets = written ++ rest ∧
        element.offset = 0 ∧ element.size = written.length := by
  simp only [readElement, bind_eq_ok_iff, Prod.exists, readHeader_eq_ok_iff, encode_eq_ok_iff]
  constructor
  · rintro ⟨header, rest', ⟨tag, length, htag, hlength, rfl, hsize⟩, h⟩
    split at h
    · cases h
    · -- the value is all there, so what was taken has the length that was read
      rename_i hthere
      obtain ⟨rfl, rfl⟩ := by simpa using h
      have hvalue : (rest'.take header.length).length = header.length := by
        have hle := List.length_take_le header.length rest'
        omega
      refine ⟨tag ++ length ++ rest'.take header.length, ⟨tag, length, htag, ?_, rfl⟩, ?_, rfl, ?_⟩
      · rw [hvalue]
        exact hlength
      · rw [List.append_assoc _ _ (rest'.drop _), List.take_append_drop]
      · rw [List.length_append, List.length_append, hvalue, hsize]
  · rintro ⟨written, ⟨tag, length, htag, hlength, rfl⟩, rfl, hoffset, hsize⟩
    -- the header in front of the value is read whatever stands behind it
    refine ⟨⟨element.tag, element.value.length, tag.length + length.length⟩, element.value ++ rest,
      ⟨tag, length, htag, hlength, List.append_assoc .., rfl⟩, ?_⟩
    rw [List.take_left, List.drop_left, if_neg (Nat.lt_irrefl _)]
    obtain ⟨etag, evalue, eoffset, esize⟩ := element
    simp only at hoffset hsize
    obtain ⟨rfl, rfl⟩ := And.intro hoffset hsize
    simp [Nat.add_assoc]

/-- The element that an encoding in front is read as. -/
theorem readElement_of_encode {tag : Nat} {value written : Bytes}
    (h : encode tag value = .ok written) (rest : Bytes) :
    readElement (written ++ rest) = .ok (⟨tag, value, 0, written.length⟩, rest) :=
  readElement_eq_ok_iff.mpr ⟨written, h, rfl, rfl, rfl⟩

/-! ## Objects in a row -/

/-- `Laid start elements octets` — the octets, of which the first is number `start`, are the
    encodings of the elements in a row, and every element has its own place and size. -/
def Laid (start : Nat) : List Element → Bytes → Prop
  | [], octets => octets = []
  | element :: more, octets =>
    ∃ written rest, encode element.tag element.value = .ok written ∧ octets = written ++ rest ∧
      element.offset = start ∧ element.size = written.length ∧
      Laid (start + written.length) more rest

@[simp] theorem decodeFrom_nil (start : Nat) : decodeFrom start [] = .ok [] := by
  rw [decodeFrom, if_pos rfl]

/-- Octets with a data object in front are this object, moved to where they start, and what is read
of the rest. -/
theorem decodeFrom_eq_ok_cons_iff {start : Nat} {octets : Bytes} {element : Element}
    {more : List Element} :
    decodeFrom start octets = .ok (element :: more) ↔
      ∃ front rest, readElement octets = .ok (front, rest) ∧ element = front.shift start ∧
        decodeFrom (start + front.size) rest = .ok more := by
  rw [decodeFrom]
  split
  · rename_i hnil
    obtain rfl := hnil
    constructor
    · intro h
      cases h
    · rintro ⟨_, _, hread, -⟩
      cases hread
  · split
    · rename_i hread
      constructor
      · intro h
        cases h
      · rintro ⟨_, _, hread', -⟩
        rw [hread] at hread'
        cases hread'
    · rename_i front rest hread
      simp only [hread, map_eq_ok_iff, Except.ok.injEq, Prod.mk.injEq, List.cons.injEq]
      constructor
      · rintro ⟨others, hmore, rfl, rfl⟩
        exact ⟨front, rest, ⟨rfl, rfl⟩, rfl, hmore⟩
      · rintro ⟨_, _, ⟨rfl, rfl⟩, rfl, hmore⟩
        exact ⟨more, hmore, rfl, rfl⟩

/-- There are no data objects in no octets only. -/
theorem decodeFrom_eq_ok_nil_iff {start : Nat} {octets : Bytes} :
    decodeFrom start octets = .ok [] ↔ octets = [] := by
  constructor
  · intro h
    rw [decodeFrom] at h
    split at h
    · assumption
    · split at h
      · cases h
      · obtain ⟨others, -, hcons⟩ := map_eq_ok_iff.mp h
        cases hcons
  · rintro rfl
    exact decodeFrom_nil start

/-- Decoding finds the elements that the octets are made of, each with its place. -/
theorem decodeFrom_eq_ok_iff {start : Nat} {octets : Bytes} {elements : List Element} :
    decodeFrom start octets = .ok elements ↔ Laid start elements octets := by
  -- the rest starts where the first element ends, so the start has to be any number
  induction elements generalizing start octets with
  | nil => exact decodeFrom_eq_ok_nil_iff
  | cons element more ih =>
    simp only [decodeFrom_eq_ok_cons_iff, readElement_eq_ok_iff, Laid]
    constructor
    · rintro ⟨front, rest, ⟨written, hwritten, rfl, hoffset, hsize⟩, rfl, hmore⟩
      refine ⟨written, rest, hwritten, rfl, ?_, hsize, ?_⟩
      · simp [Element.shift, hoffset]
      · rw [← hsize]
        exact ih.mp hmore
    · rintro ⟨written, rest, hwritten, rfl, hoffset, hsize, hmore⟩
      refine ⟨{ element with offset := 0 }, rest, ⟨written, hwritten, rfl, rfl, hsize⟩, ?_, ?_⟩
      · simp [Element.shift, ← hoffset]
      · show decodeFrom (start + element.size) rest = .ok more
        rw [hsize]
        exact ih.mpr hmore

/-- An encoding is decoded as one element. -/
theorem decode_of_encode {tag : Nat} {value octets : Bytes} (h : encode tag value = .ok octets) :
    decode octets = .ok [⟨tag, value, 0, octets.length⟩] :=
  decodeFrom_eq_ok_iff.mpr ⟨octets, [], h, (List.append_nil octets).symm, rfl, rfl, rfl⟩

/-! ## Tags and values -/

/-- The tag and the value of an element, without its place. -/
def Element.object (element : Element) : Nat × Bytes := (element.tag, element.value)

end Tlv

open Tlv

/-- Objects in a row are written one behind the other. -/
theorem encodeAll_cons_eq_ok_iff {tag : Nat} {value octets : Bytes}
    {objects : List (Nat × Bytes)} :
    encodeAll ((tag, value) :: objects) = .ok octets ↔
      ∃ first rest, Tlv.encode tag value = .ok first ∧ encodeAll objects = .ok rest ∧
        octets = first ++ rest := by
  simp only [encodeAll, bind_eq_ok_iff, Except.ok.injEq]
  constructor
  · rintro ⟨first, hfirst, rest, hrest, rfl⟩
    exact ⟨first, rest, hfirst, hrest, rfl⟩
  · rintro ⟨first, rest, hfirst, hrest, rfl⟩
    exact ⟨first, hfirst, rest, hrest, rfl⟩

/-- A row is the encoding of its objects. -/
theorem encodeAll_of_laid {start : Nat} {elements : List Element} {octets : Bytes}
    (h : Laid start elements octets) : encodeAll (elements.map Element.object) = .ok octets := by
  induction elements generalizing start octets with
  | nil =>
    obtain rfl := h
    rfl
  | cons element more ih =>
    obtain ⟨written, rest, hwritten, rfl, -, -, hmore⟩ := h
    exact encodeAll_cons_eq_ok_iff.mpr ⟨written, rest, hwritten, ih hmore, rfl⟩

/-- An encoding of objects is a row of elements with these objects, wherever it starts. -/
theorem laid_of_encodeAll {objects : List (Nat × Bytes)} {octets : Bytes}
    (h : encodeAll objects = .ok octets) (start : Nat) :
    ∃ elements, Laid start elements octets ∧ elements.map Element.object = objects := by
  induction objects generalizing start octets with
  | nil =>
    obtain rfl := Except.ok.inj h
    exact ⟨[], rfl, rfl⟩
  | cons object objects ih =>
    obtain ⟨tag, value⟩ := object
    obtain ⟨first, rest, hfirst, hrest, rfl⟩ := encodeAll_cons_eq_ok_iff.mp h
    obtain ⟨more, hmore, rfl⟩ := ih hrest (start + first.length)
    exact ⟨⟨tag, value, start, first.length⟩ :: more,
      ⟨first, rest, hfirst, rfl, rfl, rfl, hmore⟩, rfl⟩

/-- What is decoded encodes to the octets that it was decoded from. -/
theorem encodeAll_of_decodeFrom {start : Nat} {octets : Bytes} {elements : List Element}
    (h : decodeFrom start octets = .ok elements) :
    encodeAll (elements.map Element.object) = .ok octets :=
  encodeAll_of_laid (decodeFrom_eq_ok_iff.mp h)

/-- Encoded objects are decoded. -/
theorem decodeFrom_of_encodeAll {objects : List (Nat × Bytes)} {octets : Bytes}
    (h : encodeAll objects = .ok octets) (start : Nat) :
    ∃ elements, decodeFrom start octets = .ok elements ∧ elements.map Element.object = objects := by
  obtain ⟨elements, hlaid, hobjects⟩ := laid_of_encodeAll h start
  exact ⟨elements, decodeFrom_eq_ok_iff.mpr hlaid, hobjects⟩

/-- Octets are the encoding of one row of objects at most. -/
theorem encodeAll_injective {objects others : List (Nat × Bytes)} {octets : Bytes}
    (h : encodeAll objects = .ok octets) (h' : encodeAll others = .ok octets) :
    objects = others := by
  obtain ⟨elements, hdecode, rfl⟩ := decodeFrom_of_encodeAll h 0
  obtain ⟨elements', hdecode', rfl⟩ := decodeFrom_of_encodeAll h' 0
  rw [hdecode] at hdecode'
  rw [Except.ok.inj hdecode']

end AccessRules
