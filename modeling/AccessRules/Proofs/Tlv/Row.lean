import AccessRules.Proofs.Tlv.Element
import Mathlib.Algebra.GroupWithZero.Nat

/-!
# Rows of data objects

Decoding and encoding are inverse to each other: `decode` takes the rows of data objects, and
nothing else, back to their tags and values (`decode_row`).

1. **Encodings one by one** — `encodeEach` gives the encoding of each object by itself.  It fails
   only on a tag that has no encoding or a value that is too long (`exists_encodeEach_iff`).

2. **Places** — decoding finds some elements exactly if the octets are their encodings joined, each
   element is as long as its encoding, and each starts where the encodings in front of it end
   (`decode_eq_ok_iff_encodeEach`).  The induction is on the elements, and the row may start
   anywhere, since the rest of a row is a row that starts further on.
-/

namespace AccessRules.Tlv

/-! ## Encodings one by one -/

/-- The encodings of some objects, each by itself. -/
def encodeEach (objects : List (Nat × Bytes)) : Except RangeFlaw (List Bytes) :=
  objects.mapM fun object => encode object.1 object.2

theorem encodeEach_nil_eq_ok_iff {pieces : List Bytes} :
    encodeEach [] = .ok pieces ↔ pieces = [] := by
  rw [encodeEach, List.mapM_nil]
  constructor
  · intro h
    exact (Except.ok.inj h).symm
  · rintro rfl
    rfl

/-- The first piece is the encoding of the first object. -/
theorem encodeEach_cons_eq_ok_iff {tag : Nat} {value : Bytes} {objects : List (Nat × Bytes)}
    {pieces : List Bytes} :
    encodeEach ((tag, value) :: objects) = .ok pieces ↔
      ∃ first rest, encode tag value = .ok first ∧ encodeEach objects = .ok rest ∧
        pieces = first :: rest := by
  simp only [encodeEach, List.mapM_cons, bind_eq_ok_iff]
  constructor
  · rintro ⟨first, hfirst, rest, hrest, heq⟩
    exact ⟨first, rest, hfirst, hrest, (Except.ok.inj heq).symm⟩
  · rintro ⟨first, rest, hfirst, hrest, rfl⟩
    exact ⟨first, hfirst, rest, hrest, rfl⟩

/-- An object has an encoding exactly if its tag has one and its value is not too long. -/
theorem exists_encode_iff {tag : Nat} {value : Bytes} :
    (∃ octets, encode tag value = .ok octets) ↔
      (∃ octets, encodeTag tag = .ok octets) ∧ value.length ≤ 0xffffff := by
  rw [← exists_encodeLength_iff]
  constructor
  · rintro ⟨octets, h⟩
    obtain ⟨first, second, htag, hlength, -⟩ := encode_eq_ok_iff.mp h
    exact ⟨⟨first, htag⟩, second, hlength⟩
  · rintro ⟨⟨first, htag⟩, second, hlength⟩
    exact ⟨_, encode_eq_ok_iff.mpr ⟨first, second, htag, hlength, rfl⟩⟩

/-- Objects have encodings exactly if every tag has one and no value is too long. -/
theorem exists_encodeEach_iff {objects : List (Nat × Bytes)} :
    (∃ pieces, encodeEach objects = .ok pieces) ↔
      ∀ object ∈ objects, (∃ octets, encodeTag object.1 = .ok octets) ∧
        object.2.length ≤ 0xffffff := by
  induction objects with
  | nil =>
    constructor
    · intro _ object hmem
      cases hmem
    · intro _
      exact ⟨[], encodeEach_nil_eq_ok_iff.mpr rfl⟩
  | cons object objects ih =>
    obtain ⟨tag, value⟩ := object
    rw [List.forall_mem_cons, ← exists_encode_iff, ← ih]
    constructor
    · rintro ⟨pieces, h⟩
      obtain ⟨first, rest, hfirst, hrest, -⟩ := encodeEach_cons_eq_ok_iff.mp h
      exact ⟨⟨first, hfirst⟩, rest, hrest⟩
    · rintro ⟨⟨first, hfirst⟩, rest, hrest⟩
      exact ⟨_, encodeEach_cons_eq_ok_iff.mpr ⟨first, rest, hfirst, hrest, rfl⟩⟩

/-! ## Places -/

/-- `InPlace start elements pieces` — every element is as long as its piece and starts where the
    pieces in front of it end, the first of which starts at `start`. -/
def InPlace (start : Nat) (elements : List Element) (pieces : List Bytes) : Prop :=
  elements.map Element.size = pieces.map List.length ∧
    ∀ i element, elements[i]? = some element →
      element.offset = ((start + ((pieces.take i).map List.length).sum : Nat) : Int)

theorem inPlace_nil_iff {start : Nat} {pieces : List Bytes} :
    InPlace start [] pieces ↔ pieces = [] := by
  constructor
  · rintro ⟨hsizes, -⟩
    exact List.map_eq_nil_iff.mp hsizes.symm
  · rintro rfl
    exact ⟨rfl, nofun⟩

/-- The first object starts where the row does, and the others behind its piece. -/
theorem inPlace_cons_iff {start : Nat} {element : Element} {elements : List Element}
    {piece : Bytes} {pieces : List Bytes} :
    InPlace start (element :: elements) (piece :: pieces) ↔
      element.offset = start ∧ element.size = piece.length ∧
        InPlace (start + piece.length) elements pieces := by
  simp only [InPlace, List.map_cons, List.cons.injEq]
  constructor
  · rintro ⟨⟨hsize, hsizes⟩, hoffsets⟩
    refine ⟨hoffsets 0 element rfl, hsize, hsizes, ?_⟩
    -- the pieces in front of the others are those behind the first one, and this one
    intro i other hother
    have hoffset := hoffsets (i + 1) other hother
    rw [List.take_succ_cons, List.map_cons, List.sum_cons, ← Nat.add_assoc] at hoffset
    exact hoffset
  · rintro ⟨hoffset, hsize, hsizes, hoffsets⟩
    refine ⟨⟨hsize, hsizes⟩, ?_⟩
    intro i other hother
    cases i with
    | zero =>
      obtain rfl := Option.some.inj hother
      exact hoffset
    | succ i =>
      rw [List.take_succ_cons, List.map_cons, List.sum_cons, ← Nat.add_assoc]
      exact hoffsets i other hother

/-- Elements lie in a row exactly if the octets are their encodings joined and they know their
    places. -/
theorem laid_iff_encodeEach {start : Nat} {elements : List Element} {octets : Bytes} :
    Laid start elements octets ↔
      ∃ pieces, encodeEach (elements.map Element.object) = .ok pieces ∧
        octets = pieces.flatten ∧ InPlace start elements pieces := by
  induction elements generalizing start octets with
  | nil =>
    constructor
    · intro h
      obtain rfl : octets = [] := h
      exact ⟨[], encodeEach_nil_eq_ok_iff.mpr rfl, rfl, inPlace_nil_iff.mpr rfl⟩
    · rintro ⟨pieces, hpieces, rfl, -⟩
      obtain rfl := encodeEach_nil_eq_ok_iff.mp hpieces
      rfl
  | cons element elements ih =>
    constructor
    · -- the pieces are found from the front
      rintro ⟨first, rest, hfirst, rfl, hoffset, hsize, hrest⟩
      obtain ⟨pieces, hpieces, rfl, hplaces⟩ := ih.mp hrest
      exact ⟨first :: pieces,
        encodeEach_cons_eq_ok_iff.mpr ⟨first, pieces, hfirst, hpieces, rfl⟩, rfl,
        inPlace_cons_iff.mpr ⟨hoffset, hsize, hplaces⟩⟩
    · rintro ⟨_, hpieces, rfl, hplaces⟩
      obtain ⟨first, pieces, hfirst, hrest, rfl⟩ := encodeEach_cons_eq_ok_iff.mp hpieces
      obtain ⟨hoffset, hsize, hplaces⟩ := inPlace_cons_iff.mp hplaces
      exact ⟨first, pieces.flatten, hfirst, rfl, hoffset, hsize,
        ih.mpr ⟨pieces, hrest, rfl, hplaces⟩⟩

/-- Decoding finds the elements of which the octets are the encodings joined. -/
theorem decode_eq_ok_iff_encodeEach {octets : Bytes} {elements : List Element} :
    decode octets = .ok elements ↔
      ∃ pieces, encodeEach (elements.map Element.object) = .ok pieces ∧
        octets = pieces.flatten ∧ InPlace 0 elements pieces := by
  rw [decode, decodeFrom_eq_ok_iff, laid_iff_encodeEach]

/-! ## Both ways -/

/-- The octets of a row are its pieces joined. -/
theorem encodeAll_of_encodeEach {objects : List (Nat × Bytes)} {pieces : List Bytes}
    (h : encodeEach objects = .ok pieces) : encodeAll objects = .ok pieces.flatten := by
  induction objects generalizing pieces with
  | nil =>
    obtain rfl := encodeEach_nil_eq_ok_iff.mp h
    rfl
  | cons object objects ih =>
    obtain ⟨tag, value⟩ := object
    obtain ⟨first, rest, hfirst, hrest, rfl⟩ := encodeEach_cons_eq_ok_iff.mp h
    exact encodeAll_cons_eq_ok_iff.mpr ⟨first, rest.flatten, hfirst, ih hrest, rfl⟩

/-- Encodings joined are decoded as the objects, each in its place. -/
theorem decode_of_encodeEach {objects : List (Nat × Bytes)} {pieces : List Bytes}
    (h : encodeEach objects = .ok pieces) :
    ∃ elements, decode pieces.flatten = .ok elements ∧ elements.map Element.object = objects ∧
      InPlace 0 elements pieces := by
  obtain ⟨elements, hdecode, rfl⟩ := decodeFrom_of_encodeAll (encodeAll_of_encodeEach h) 0
  obtain ⟨pieces', hpieces', -, hplaces⟩ := decode_eq_ok_iff_encodeEach.mp hdecode
  rw [h] at hpieces'
  obtain rfl := Except.ok.inj hpieces'
  exact ⟨elements, hdecode, rfl, hplaces⟩

/-- **Decoding and encoding are inverse to each other.**  Objects with tags that have an encoding
    and values that are not too long have encodings, and these joined are decoded as the objects,
    each with its size and with the sum of the sizes in front of it.  What is decoded is made of
    tags that have an encoding, and its encodings joined are the octets.  So octets that are no
    encodings joined are not decoded, and encodings joined are those of one list of objects. -/
theorem decode_row :
    (∀ objects : List (Nat × Bytes),
      (∀ object ∈ objects, (∃ octets, encodeTag object.1 = .ok octets) ∧
        object.2.length ≤ 0xffffff) →
      ∃ pieces elements, encodeEach objects = .ok pieces ∧
        decode pieces.flatten = .ok elements ∧ elements.map Element.object = objects ∧
        elements.map Element.size = pieces.map List.length ∧
        ∀ i element, elements[i]? = some element →
          element.offset = ((((pieces.take i).map List.length).sum : Nat) : Int)) ∧
    (∀ octets elements, decode octets = .ok elements →
      (∀ element ∈ elements, ∃ tag, encodeTag element.tag = .ok tag) ∧
        ∃ pieces, encodeEach (elements.map Element.object) = .ok pieces ∧
          octets = pieces.flatten) ∧
    (∀ octets, (∀ objects pieces, encodeEach objects = .ok pieces → octets ≠ pieces.flatten) →
      ∃ flaw, decode octets = .error flaw) ∧
    ∀ objects others pieces pieces', encodeEach objects = .ok pieces →
      encodeEach others = .ok pieces' → pieces.flatten = pieces'.flatten → objects = others := by
  refine ⟨?_, ?_, ?_, ?_⟩
  · intro objects hobjects
    obtain ⟨pieces, hpieces⟩ := exists_encodeEach_iff.mpr hobjects
    obtain ⟨elements, hdecode, hmap, hsizes, hoffsets⟩ := decode_of_encodeEach hpieces
    refine ⟨pieces, elements, hpieces, hdecode, hmap, hsizes, ?_⟩
    intro i element helement
    have hoffset := hoffsets i element helement
    rwa [Nat.zero_add] at hoffset
  · intro octets elements hdecode
    obtain ⟨pieces, hpieces, hflatten, -⟩ := decode_eq_ok_iff_encodeEach.mp hdecode
    refine ⟨?_, pieces, hpieces, hflatten⟩
    intro element hmem
    have hobjects := exists_encodeEach_iff.mp ⟨pieces, hpieces⟩
    exact (hobjects element.object (List.mem_map_of_mem hmem)).1
  · -- what is decoded has pieces, so octets without them are not
    intro octets hnone
    cases hdecode : decode octets with
    | error flaw => exact ⟨flaw, rfl⟩
    | ok elements =>
      obtain ⟨pieces, hpieces, hflatten, -⟩ := decode_eq_ok_iff_encodeEach.mp hdecode
      exact absurd hflatten (hnone _ pieces hpieces)
  · -- both are read from the same octets
    intro objects others pieces pieces' hpieces hpieces' heq
    have hencode' := encodeAll_of_encodeEach hpieces'
    rw [← heq] at hencode'
    exact encodeAll_injective (encodeAll_of_encodeEach hpieces) hencode'

/-- Tags of one, two and three octets, an empty value and one whose length has a long form; octets
    that are a tag cut off; and octets that are one encoding. -/
theorem decode_row_of_three_tags :
    (∃ pieces elements,
      encodeEach [(0x4f, []), (0xdf21, List.replicate 200 7), (0xff8101, [1])] = .ok pieces ∧
        decode pieces.flatten = .ok elements ∧
        elements.map Element.object
          = [(0x4f, []), (0xdf21, List.replicate 200 7), (0xff8101, [1])] ∧
        elements.map Element.size = pieces.map List.length ∧
        ∀ i element, elements[i]? = some element →
          element.offset = ((((pieces.take i).map List.length).sum : Nat) : Int)) ∧
    (∃ tag, encodeTag 0x4f = .ok tag) ∧
    (∃ flaw, decode [0xff] = .error flaw) ∧
    ∀ others pieces, encodeEach others = .ok pieces → [[0x4f, 0]].flatten = pieces.flatten →
      [(0x4f, [])] = others := by
  have hobjects : ∀ object ∈ [(0x4f, []), (0xdf21, List.replicate 200 (7 : UInt8)),
      (0xff8101, [1])], (∃ octets, encodeTag object.1 = .ok octets) ∧
        object.2.length ≤ 0xffffff := by
    simp only [List.forall_mem_cons, List.length_replicate]
    exact ⟨⟨⟨_, rfl⟩, by decide⟩, ⟨⟨_, rfl⟩, by decide⟩, ⟨⟨_, rfl⟩, by decide⟩, nofun⟩
  have hone : decode [0x4f, 0] = .ok [⟨0x4f, [], 0, 2⟩] :=
    decode_of_encode (show encode 0x4f [] = .ok [0x4f, 0] from rfl)
  have hnone : ∀ others pieces, encodeEach others = .ok pieces → [0xff] ≠ pieces.flatten := by
    intro others pieces hpieces heq
    obtain ⟨elements, hdecode, -⟩ := decode_of_encodeEach hpieces
    rw [← heq, decode, decodeFrom] at hdecode
    cases hdecode
  refine ⟨decode_row.1 _ hobjects, (decode_row.2.1 _ _ hone).1 _ List.mem_cons_self,
    decode_row.2.2.1 _ hnone, ?_⟩
  intro others pieces hpieces heq
  have hpiece : encodeEach [(0x4f, [])] = .ok [[0x4f, 0]] := rfl
  exact decode_row.2.2.2 _ _ _ _ hpiece hpieces heq

end AccessRules.Tlv
