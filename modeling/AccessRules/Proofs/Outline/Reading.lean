import AccessRules.Proofs.Tlv.Element
import AccessRules.Outline.Basic

/-!
# The outline of octets that are strictly encoded

Outlines are drawn up without the checks of the strict decoder, by a reader of their own.  On strict
encodings the two readers agree, because a loose reader has nothing to be loose about there.

1. **Heads** — a tag and a length that the strict reader reads are read by the loose one
   (`readTag_of_strict`, `readLength_of_strict`), and no number of three octets counts around
   (`wrapped_eq`).  So the head in front of an encoding is its tag, the length of its value and
   where the value begins (`readHead_of_encode`).

2. **Levels** — an encoding that stands anywhere in a level gives one entry, followed by the entries
   of what it holds and by those of what stands behind it (`entriesFrom_append`).  Whether it holds
   anything is read off one bit of its tag (`holdsObjects`).
-/

namespace AccessRules.Outline

/-! ## Heads -/

/-- A number of at most three octets is too small to count around. -/
theorem wrapped_eq {octets : Bytes} (h : octets.length ≤ 3) :
    wrapped octets = ofBigEndian octets := by
  have hsmall := ofBigEndian_le_of_length_le h
  have hlow : -(((0x100000000 : Nat) : Int) / 2) ≤ (ofBigEndian octets : Int) := by omega
  have hhigh : (ofBigEndian octets : Int) < (((0x100000000 : Nat) : Int) + 1) / 2 := by omega
  exact Int.bmod_eq_of_le hlow hhigh

/-- The strict reader stops after so many octets, the loose one never does. -/
theorem readTagEnd_of_strict {room : Nat} {octets more rest : Bytes}
    (h : Tlv.readTagEnd room octets = .ok (more, rest)) : readTagEnd octets = .ok (more, rest) := by
  induction octets generalizing room more with
  | nil => cases room <;> cases h
  | cons octet octets ih =>
    -- the strict reader has no room for this octet, or one octet less behind it
    cases room with
    | zero => cases h
    | succ room =>
      rw [Tlv.readTagEnd] at h
      rw [readTagEnd]
      split at h
      · rename_i hlow
        rw [if_pos hlow]
        cases h
        rfl
      · rename_i hhigh
        obtain ⟨⟨others, rest'⟩, hread, h⟩ := bind_eq_ok_iff.mp h
        rw [if_neg hhigh, bind_eq_ok_iff]
        cases h
        exact ⟨_, ih hread, rfl⟩

/-- A tag that is read strictly is read loosely. -/
theorem readTag_of_strict {octets tag rest : Bytes} (h : Tlv.readTag octets = .ok (tag, rest))
    (offset : Int) : readTag offset octets = .ok (tag, rest) := by
  cases octets with
  | nil => cases h
  | cons first octets =>
    simp only [Tlv.readTag, Tlv.announcesMore, decide_eq_true_eq] at h
    rw [readTag]
    split at h
    · rename_i hmore
      obtain ⟨⟨others, rest'⟩, hread, h⟩ := bind_eq_ok_iff.mp h
      rw [if_pos hmore, bind_eq_ok_iff]
      cases h
      exact ⟨_, readTagEnd_of_strict hread, rfl⟩
    · rename_i hone
      rw [if_neg hone]
      cases h
      rfl

/-- The strict reader drops the octets of a length; the loose one keeps them for their number. -/
theorem readLength_of_strict {octets rest : Bytes} {length : Nat}
    (h : Tlv.readLength octets = .ok (length, rest)) (offset : Int) :
    ∃ written, octets = written ++ rest ∧
      readLength offset octets = .ok ((length : Int), written, rest) := by
  cases octets with
  | nil => cases h
  | cons first octets =>
    rw [Tlv.readLength] at h
    rw [readLength]
    split at h
    · rename_i hshort
      rw [if_pos hshort]
      cases h
      exact ⟨[first], rfl, rfl⟩
    · rename_i hlong
      rw [if_neg hlong]
      split at h
      · cases h
      · rename_i hdefinite
        rw [if_neg hdefinite]
        simp only at h ⊢
        split at h
        · cases h
        · rename_i hcount
          split at h
          · cases h
          · rename_i hthere
            split at h
            · cases h
            · obtain ⟨rfl, rfl⟩ := Prod.mk.inj (Except.ok.inj h)
              -- the strict reader allows for no more than three octets, so the number is exact
              have hlength : (octets.take (first.toNat - 0x80)).length ≤ 3 := by
                have hle := List.length_take_le (first.toNat - 0x80) octets
                omega
              rw [if_neg hthere]
              rw [wrapped_eq hlength]
              refine ⟨first :: octets.take (first.toNat - 0x80), ?_, rfl⟩
              rw [List.cons_append, List.take_append_drop]

/-- Whether the first octet of a tag says that its value holds data objects. -/
def holdsObjects (tag : Nat) : Bool := isConstructed (shortest tag)

/-- In a tag of one octet it is the third bit from above that says so. -/
theorem holdsObjects_eq_testBit : ∀ tag < 0x100, holdsObjects tag = tag.testBit 5 := by
  decide +kernel

/-- In front of an encoding the loose reader finds its tag and what is its value. -/
theorem readHead_of_encode {tag : Nat} {value written : Bytes}
    (h : Tlv.encode tag value = .ok written) (offset : Int) (rest : Bytes) :
    ∃ front, written = front ++ value ∧ readHead offset (written ++ rest) =
      .ok ⟨tag, holdsObjects tag, value.length, front.length⟩ := by
  obtain ⟨first, second, htag, hlength, rfl⟩ := Tlv.encode_eq_ok_iff.mp h
  obtain ⟨-, hshortest, hisTag⟩ := Tlv.encodeTag_eq_ok_iff_shortest.mp htag
  obtain ⟨-, hnumber⟩ := Tlv.encodeTag_eq_ok_iff.mp htag
  have hoctets : first ++ second ++ value ++ rest = first ++ (second ++ (value ++ rest)) := by
    simp only [List.append_assoc]
  have hreadTag := readTag_of_strict (Tlv.readTag_eq_ok_iff.mpr ⟨hoctets, hisTag⟩) offset
  obtain ⟨written, hwritten, hreadLength⟩ := readLength_of_strict
    (Tlv.readLength_of_encodeLength hlength (value ++ rest)) (offset + first.length)
  -- the octets that were kept are those of the length
  obtain rfl := List.append_cancel_right hwritten
  refine ⟨first ++ second, rfl, ?_⟩
  rw [readHead, bind_eq_ok_iff]
  refine ⟨_, hreadTag, ?_⟩
  rw [bind_eq_ok_iff]
  refine ⟨_, hreadLength, ?_⟩
  rw [wrapped_eq hisTag.length_le, hnumber, holdsObjects, hshortest, List.length_append]

/-! ## Levels -/

/-- Cutting out the middle gives the middle. -/
theorem slice_append (front middle rest : Bytes) :
    slice (front ++ (middle ++ rest)) front.length (front.length + middle.length) = middle := by
  have hstop : ¬ (front.length + middle.length : Int) < 0 := by omega
  have hcount : (front.length + middle.length - front.length : Int).toNat = middle.length := by
    omega
  rw [slice, if_neg hstop, List.drop_left, hcount, List.take_left]

theorem entriesFrom_nil (depth budget : Nat) (octets : Bytes) :
    entriesFrom depth octets budget octets.length = .ok [] := by
  rw [entriesFrom.eq_def, if_pos (Int.le_refl _)]

/-- One step through a level, at an encoding with anything in front of it and behind it. -/
theorem entriesFrom_append {tag : Nat} {value written : Bytes}
    (h : Tlv.encode tag value = .ok written) (depth budget : Nat) (front rest : Bytes) :
    entriesFrom depth (front ++ (written ++ rest)) (budget + 1) front.length =
      (if holdsObjects tag then entriesFrom (depth + 1) value value.length 0 else .ok []).bind
        fun inner =>
          (entriesFrom depth (front ++ (written ++ rest)) budget (front ++ written).length).map
            fun others =>
              ⟨depth, tag, if holdsObjects tag then [] else value, !inner.isEmpty⟩ ::
                inner ++ others := by
  obtain ⟨header, rfl, hread⟩ := readHead_of_encode h front.length rest
  have hsome := List.length_pos_iff.mpr (Tlv.encode_ne_nil h)
  have hinside : ¬ ((front ++ (header ++ value ++ rest)).length : Int) ≤ front.length := by
    rw [List.length_append, List.length_append]
    omega
  have hforward : ¬ (front.length : Int) < 0 := by omega
  rw [entriesFrom.eq_def, if_neg hinside, if_neg hforward]
  simp only
  -- the head is matched together with the proof that it was read, so it is not rewritten
  split
  · rename_i flaw hflaw
    rw [Int.toNat_natCast, List.drop_left, hread] at hflaw
    cases hflaw
  · rename_i head hhead
    rw [Int.toNat_natCast, List.drop_left, hread] at hhead
    obtain rfl := Except.ok.inj hhead
    have hslice := slice_append (front ++ header) value rest
    have hend : ((front.length + header.length : Nat) : Int) + value.length =
        (front ++ (header ++ value)).length := by
      rw [List.length_append, List.length_append]
      omega
    rw [List.length_append, List.append_assoc, ← List.append_assoc header, hend] at hslice
    simp only [Int.toNat_natCast, hslice, hend]

end AccessRules.Outline
