import AccessRules.Outcome
import AccessRules.Tlv.Flaw

/-!
# Tags and lengths

A tag has one to three octets. The five low bits of the first octet are all set exactly when more
octets follow, and of those all but the last have their high bit set. A length below `0x80` is one
octet; a larger one is written in the fewest octets behind an octet that counts them. Both have one
encoding only, and reading accepts no other.
-/

namespace AccessRules.Tlv

/-! ## Tags -/

/-- Whether a first tag octet announces more. -/
def announcesMore (first : UInt8) : Bool := first.toNat % 32 = 31

/-- Whether the octets after the first one end exactly at the last. -/
def endsAtLast : Bytes → Bool
  | [] => false
  | [last] => last.toNat < 0x80
  | octet :: rest => 0x80 ≤ octet.toNat && endsAtLast rest

/-- The octets of a tag. -/
def encodeTag (tag : Nat) : Except RangeFlaw Bytes :=
  if 0xffffff < tag then .error .tagRange
  else
    match shortest tag with
    | [] => .ok []
    | [only] => if announcesMore only then .error (.tagAnnouncesMore tag) else .ok [only]
    | first :: more =>
      if !announcesMore first then .error (.tagAnnouncesNone tag)
      else if !endsAtLast more then .error (.tagContinuation tag)
      else .ok (first :: more)

/-- The octets after the first one through the first without its high bit, at most `room` of
them, and the rest. -/
def readTagEnd : (room : Nat) → Bytes → Except Flaw (Bytes × Bytes)
  | _, [] => .error .truncatedTag
  | 0, _ :: _ => .error .longTag
  | room + 1, octet :: rest =>
    if octet.toNat < 0x80 then .ok ([octet], rest)
    else do
      let (more, rest) ← readTagEnd room rest
      .ok (octet :: more, rest)

/-- The octets of the tag in front, and the rest. -/
def readTag : Bytes → Except Flaw (Bytes × Bytes)
  | [] => .error .truncatedTag
  | first :: rest =>
    if announcesMore first then do
      let (more, rest) ← readTagEnd 2 rest
      .ok (first :: more, rest)
    else .ok ([first], rest)

/-! ## Lengths -/

/-- The octets of a length. -/
def encodeLength (length : Nat) : Except RangeFlaw Bytes :=
  if 0xffffff < length then .error .lengthRange
  else if length < 0x80 then .ok [UInt8.ofNat length]
  else .ok (UInt8.ofNat (0x80 + octetCount length) :: shortest length)

/-- How many octets the encoding of a length has. -/
def lengthSize (length : Nat) : Nat := if length < 0x80 then 1 else 1 + octetCount length

/-- The length in front, and the rest. -/
def readLength : Bytes → Except Flaw (Nat × Bytes)
  | [] => .error .truncatedLength
  | first :: rest =>
    if first.toNat < 0x80 then .ok (first.toNat, rest)
    else if first.toNat = 0x80 then .error .indefiniteLength
    else
      let count := first.toNat - 0x80
      if 3 < count then .error (.wideLength count)
      else
        let octets := rest.take count
        let length := ofBigEndian octets
        if octets.length < count then .error .truncatedLength
        else if length < 0x80 ∨ octetCount length ≠ count then .error .looseLength
        else .ok (length, rest.drop count)

/-! ## Both -/

/-- A tag and a length, and how many octets they take. -/
structure Header where
  tag : Nat
  length : Nat
  size : Nat
  deriving DecidableEq, Repr

/-- The header in front, and the rest. -/
def readHeader (octets : Bytes) : Except (Located Flaw) (Header × Bytes) := do
  let (tag, rest) ← (readTag octets).mapError fun flaw => ⟨flaw, 0⟩
  let (length, rest) ← (readLength rest).mapError fun flaw => ⟨flaw, tag.length⟩
  .ok (⟨ofBigEndian tag, length, tag.length + lengthSize length⟩, rest)

/-- `readAt read offset octets` reads at an offset, of which only those inside the octets can be
read at. -/
def readAt {α : Type} (read : Bytes → Except (Located Flaw) α) (offset : Int) (octets : Bytes) :
    Except (Located Flaw) α :=
  if offset < 0 then .error ⟨.truncatedTag, offset⟩
  else (read (octets.drop offset.toNat)).mapError (Located.shift offset)

/-- The header at an offset; its value need not be there. -/
def readHeaderAt (offset : Int) (octets : Bytes) : Except (Located Flaw) Header :=
  (readAt readHeader offset octets).map Prod.fst

/-! ## Reading takes octets from the front -/

/-- The end of a tag stands in front of the rest. -/
theorem readTagEnd_eq_append {room : Nat} {octets more rest : Bytes}
    (h : readTagEnd room octets = .ok (more, rest)) : octets = more ++ rest := by
  induction octets generalizing room more with
  | nil => cases room <;> simp [readTagEnd] at h
  | cons octet octets ih =>
    cases room with
    | zero => simp [readTagEnd] at h
    | succ room =>
      rw [readTagEnd] at h
      split at h
      · simp only [Except.ok.injEq, Prod.mk.injEq] at h
        obtain ⟨rfl, rfl⟩ := h
        rfl
      · cases hr : readTagEnd room octets with
        | error flaw => simp [hr, bind, Except.bind] at h
        | ok found =>
          simp only [hr, bind, Except.bind, Except.ok.injEq, Prod.mk.injEq] at h
          obtain ⟨rfl, rfl⟩ := h
          simp [ih hr]

/-- A tag stands in front of the rest and has an octet at least. -/
theorem readTag_eq_append {octets tag rest : Bytes} (h : readTag octets = .ok (tag, rest)) :
    octets = tag ++ rest ∧ tag ≠ [] := by
  cases octets with
  | nil => simp [readTag] at h
  | cons first octets =>
    rw [readTag] at h
    split at h
    · cases hr : readTagEnd 2 octets with
      | error flaw => simp [hr, bind, Except.bind] at h
      | ok found =>
        simp only [hr, bind, Except.bind, Except.ok.injEq, Prod.mk.injEq] at h
        obtain ⟨rfl, rfl⟩ := h
        simp [← readTagEnd_eq_append hr]
    · simp only [Except.ok.injEq, Prod.mk.injEq] at h
      obtain ⟨rfl, rfl⟩ := h
      simp

/-- Reading a length leaves no more octets than there were. -/
theorem length_le_of_readLength {octets rest : Bytes} {length : Nat}
    (h : readLength octets = .ok (length, rest)) : rest.length ≤ octets.length := by
  cases octets with
  | nil => simp [readLength] at h
  | cons first octets =>
    rw [readLength] at h
    split at h
    · simp only [Except.ok.injEq, Prod.mk.injEq] at h
      simp [← h.2]
    · split at h
      · cases h
      · simp only at h
        split at h
        · cases h
        · split at h
          · cases h
          · split at h
            · cases h
            · simp only [Except.ok.injEq, Prod.mk.injEq] at h
              rw [← h.2, List.length_drop, List.length_cons]
              omega

/-- A header takes an octet at least. -/
theorem length_lt_of_readHeader {octets rest : Bytes} {header : Header}
    (h : readHeader octets = .ok (header, rest)) : rest.length < octets.length := by
  simp only [readHeader, bind_eq_ok_iff, mapError_eq_ok_iff, Prod.exists, Except.ok.injEq,
    Prod.mk.injEq] at h
  obtain ⟨tag, middle, readsTag, length, rest', readsLength, -, rfl⟩ := h
  obtain ⟨rfl, nonempty⟩ := readTag_eq_append readsTag
  have shorter := length_le_of_readLength readsLength
  have positive := List.length_pos_iff.2 nonempty
  rw [List.length_append]
  omega

example : readHeaderAt 0 [0xff, 0x40, 0x81, 0x80] = .ok ⟨0xff40, 0x80, 4⟩ := rfl
example : readHeaderAt 1 [0x4f, 0x1f] = .error ⟨.truncatedTag, 1⟩ := rfl
example : encodeTag 0xdfdf = .error (.tagContinuation 0xdfdf) := rfl

end AccessRules.Tlv
