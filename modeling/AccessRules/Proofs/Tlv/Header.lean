import AccessRules.Tlv.Header
import Mathlib.Algebra.Group.Nat.Defs

/-!
# Tags and lengths have one written form

Reading a tag or a length and writing it are two views of one set of octets.

1. **Numbers** — `bigEndian` and `ofBigEndian` undo each other on numbers and on octets of a fixed
   width, and `octetCount` finds the width again if the first octet is not zero.

2. **Tags** — `IsTag` says which octets are a tag, without reading or writing any.  Writing gives
   exactly these (`encodeTag_eq_ok_iff`) and reading takes exactly these off the front
   (`readTag_eq_ok_iff`), so the two meet without being compared with each other.

3. **Lengths** — the written form of a length is a function of the length, so reading is compared
   with writing at once (`readLength_eq_ok_iff`).

4. **Headers** — both together (`readHeader_eq_ok_iff`).
-/

namespace AccessRules

/-! ## Numbers as octets -/

/-- An octet at the end is the lowest place of the number. -/
theorem ofBigEndian_append_singleton (octets : Bytes) (last : UInt8) :
    ofBigEndian (octets ++ [last]) = ofBigEndian octets * 256 + last.toNat := by
  simp [ofBigEndian]

/-- Octets are the digits of the number that they write. -/
theorem bigEndian_ofBigEndian (octets : Bytes) :
    bigEndian octets.length (ofBigEndian octets) = octets := by
  -- `bigEndian` takes octets off the end, so the induction is on the list read backwards
  rw [← List.reverse_reverse octets]
  induction octets.reverse with
  | nil => rfl
  | cons last firsts ih =>
    have hlast : last.toNat < 256 := last.toNat_lt
    have hhigh : (ofBigEndian firsts.reverse * 256 + last.toNat) / 256
        = ofBigEndian firsts.reverse := by omega
    have hlow : UInt8.ofNat (ofBigEndian firsts.reverse * 256 + last.toNat) = last := by
      apply UInt8.toNat_inj.mp
      rw [UInt8.toNat_ofNat']
      omega
    rw [List.reverse_cons, List.length_append, List.length_singleton, bigEndian,
      ofBigEndian_append_singleton, hhigh, hlow, ih]

/-- A number that fits into the width is read back. -/
theorem ofBigEndian_bigEndian {width n : Nat} (hn : n < 256 ^ width) :
    ofBigEndian (bigEndian width n) = n := by
  induction width generalizing n with
  | zero =>
    obtain rfl : n = 0 := by simpa using hn
    rfl
  | succ width ih =>
    have hhigh : n / 256 < 256 ^ width := by
      rw [Nat.pow_succ] at hn
      exact Nat.div_lt_of_lt_mul (by rwa [Nat.mul_comm])
    rw [bigEndian, ofBigEndian_append_singleton, ih hhigh, UInt8.toNat_ofNat']
    omega

/-- Octets have room for numbers below the power of 256 of their count only. -/
theorem ofBigEndian_lt (octets : Bytes) : ofBigEndian octets < 256 ^ octets.length := by
  rw [← List.reverse_reverse octets]
  induction octets.reverse with
  | nil => simp [ofBigEndian]
  | cons last firsts ih =>
    have hlast : last.toNat < 256 := last.toNat_lt
    rw [List.reverse_cons, ofBigEndian_append_singleton, List.length_append,
      List.length_singleton, Nat.pow_succ]
    omega

/-- Numbers of a header have three octets at most. -/
theorem octetCount_le (n : Nat) : octetCount n ≤ 3 := by
  unfold octetCount
  repeat' split
  all_goals omega

/-- A number fits into as many octets as it is counted to have. -/
theorem lt_pow_octetCount {n : Nat} (hn : n ≤ 0xffffff) : n < 256 ^ octetCount n := by
  unfold octetCount
  split
  · omega
  · split <;> omega

/-- A number of at most three octets is read back from the fewest octets. -/
theorem ofBigEndian_shortest {n : Nat} (hn : n ≤ 0xffffff) : ofBigEndian (shortest n) = n :=
  ofBigEndian_bigEndian (lt_pow_octetCount hn)

/-- The octets of a number are the fewest if there are as many as it needs. -/
theorem shortest_ofBigEndian {octets : Bytes}
    (hcount : octetCount (ofBigEndian octets) = octets.length) :
    shortest (ofBigEndian octets) = octets := by
  rw [shortest, hcount, bigEndian_ofBigEndian]

/-- Three octets do not go beyond the largest number of a header. -/
theorem ofBigEndian_le_of_length_le {octets : Bytes} (h3 : octets.length ≤ 3) :
    ofBigEndian octets ≤ 0xffffff := by
  have hlt := ofBigEndian_lt octets
  have hle : 256 ^ octets.length ≤ 256 ^ 3 := Nat.pow_le_pow_right (by decide) h3
  omega

/-- Up to three octets of which the first is not zero are the fewest; so is any single one. -/
theorem octetCount_ofBigEndian {first : UInt8} {more : Bytes} (h3 : more.length ≤ 2)
    (hfirst : more = [] ∨ 0 < first.toNat) :
    octetCount (ofBigEndian (first :: more)) = (first :: more).length := by
  have h1 : first.toNat < 256 := first.toNat_lt
  -- there are one to three octets; behind a first one that is not zero, each adds a place
  match more, h3, hfirst with
  | [], _, _ =>
    have hvalue : ofBigEndian [first] = first.toNat := by simp [ofBigEndian]
    rw [hvalue, octetCount, if_pos (by omega), List.length_singleton]
  | [second], _, hfirst =>
    have h2 : second.toNat < 256 := second.toNat_lt
    have hpos : 0 < first.toNat := hfirst.resolve_left (by simp)
    have hvalue : ofBigEndian [first, second] = first.toNat * 256 + second.toNat := by
      simp [ofBigEndian]
    rw [hvalue, octetCount, if_neg (by omega), if_pos (by omega)]
    rfl
  | [second, third], _, hfirst =>
    have hpos : 0 < first.toNat := hfirst.resolve_left (by simp)
    have hvalue : ofBigEndian [first, second, third]
        = (first.toNat * 256 + second.toNat) * 256 + third.toNat := by
      simp [ofBigEndian]
    rw [hvalue, octetCount, if_neg (by omega), if_neg (by omega)]
    rfl

namespace Tlv

/-! ## Tags -/

/-- `IsTag octets` — the octets are one tag: at most three, of which the first announces the others
    and the last of these alone has no high bit. -/
def IsTag : Bytes → Prop
  | [] => False
  | first :: more =>
    more.length ≤ 2 ∧ if announcesMore first then endsAtLast more = true else more = []

/-- The first octet of a longer tag is not zero. -/
theorem announcesMore_pos {first : UInt8} (h : announcesMore first = true) : 0 < first.toNat := by
  simp only [announcesMore, decide_eq_true_eq] at h
  omega

/-- A tag is written in the fewest octets. -/
theorem IsTag.octetCount_eq {octets : Bytes} (h : IsTag octets) :
    octetCount (ofBigEndian octets) = octets.length := by
  cases octets with
  | nil => exact h.elim
  | cons first more =>
    obtain ⟨h2, hmore⟩ := h
    refine octetCount_ofBigEndian h2 ?_
    split at hmore
    · rename_i hfirst
      exact Or.inr (announcesMore_pos hfirst)
    · exact Or.inl hmore

/-- A tag has three octets at most. -/
theorem IsTag.length_le {octets : Bytes} (h : IsTag octets) : octets.length ≤ 3 := by
  cases octets with
  | nil => exact h.elim
  | cons first more => exact Nat.succ_le_succ h.1

/-- Writing a tag accepts a number exactly if its fewest octets are a tag. -/
theorem encodeTag_eq_ok_iff_shortest {tag : Nat} {octets : Bytes} :
    encodeTag tag = .ok octets ↔ tag ≤ 0xffffff ∧ shortest tag = octets ∧ IsTag octets := by
  unfold encodeTag
  have hlength := length_shortest tag
  have hcount := octetCount_le tag
  split
  · exact ⟨nofun, fun h => by omega⟩
  · rename_i hsmall
    have hle : tag ≤ 0xffffff := by omega
    generalize hshort : shortest tag = written at hlength
    -- what is asked of the octets is decided by whether the first one announces more
    match written with
    | [] =>
      have hpos := octetCount_pos tag
      simp only [List.length_nil] at hlength
      omega
    | [only] => cases honly : announcesMore only <;> grind [IsTag, endsAtLast]
    | first :: second :: rest =>
      have h2 : (second :: rest).length ≤ 2 := by
        simp only [List.length_cons] at hlength ⊢
        omega
      cases hfirst : announcesMore first <;> cases hend : endsAtLast (second :: rest) <;>
        grind [IsTag]

/-- Writing a tag gives the octets that are a tag and write its number. -/
theorem encodeTag_eq_ok_iff {tag : Nat} {octets : Bytes} :
    encodeTag tag = .ok octets ↔ IsTag octets ∧ ofBigEndian octets = tag := by
  rw [encodeTag_eq_ok_iff_shortest]
  constructor
  · rintro ⟨hle, rfl, htag⟩
    exact ⟨htag, ofBigEndian_shortest hle⟩
  · rintro ⟨htag, rfl⟩
    exact ⟨ofBigEndian_le_of_length_le htag.length_le, shortest_ofBigEndian htag.octetCount_eq,
      htag⟩

/-- The octets behind the first of a tag end at the first one without a high bit. -/
theorem endsAtLast_cons_iff {first : UInt8} {others : Bytes} :
    endsAtLast (first :: others) = true ↔
      if first.toNat < 0x80 then others = [] else endsAtLast others = true := by
  cases others with
  | nil =>
    split
    · rename_i hlow
      exact iff_of_true (decide_eq_true hlow) rfl
    · rename_i hhigh
      exact iff_of_false (fun h => hhigh (of_decide_eq_true h)) Bool.false_ne_true
  | cons second others =>
    simp only [endsAtLast, Bool.and_eq_true, decide_eq_true_eq]
    split
    · rename_i hlow
      exact iff_of_false (fun h => by omega) (List.cons_ne_nil second others)
    · rename_i hhigh
      exact and_iff_right (by omega)

/-- The octets after the first one are read up to the last one of the tag. -/
theorem readTagEnd_eq_ok_iff {room : Nat} {octets more rest : Bytes} :
    readTagEnd room octets = .ok (more, rest) ↔
      octets = more ++ rest ∧ more.length ≤ room ∧ endsAtLast more = true := by
  induction octets generalizing room more rest with
  | nil =>
    constructor
    · intro h
      cases room <;> cases h
    · rintro ⟨hnil, -, hend⟩
      obtain ⟨rfl, -⟩ := List.append_eq_nil_iff.mp hnil.symm
      exact absurd hend (by decide)
  | cons octet octets ih =>
    -- without room nothing is read, and something would have to be
    cases room with
    | zero =>
      constructor
      · intro h
        cases h
      · rintro ⟨-, hlength, hend⟩
        obtain rfl := List.length_eq_zero_iff.mp (Nat.le_zero.mp hlength)
        exact absurd hend (by decide)
    | succ room =>
      rw [readTagEnd]
      split
      · -- a low octet is the last one
        rename_i hlow
        constructor
        · intro h
          obtain ⟨rfl, rfl⟩ := by simpa using h
          exact ⟨rfl, Nat.succ_le_succ room.zero_le, endsAtLast_cons_iff.mpr (by rw [if_pos hlow])⟩
        · rintro ⟨happend, -, hend⟩
          cases more with
          | nil => exact absurd hend (by decide)
          | cons first others =>
            obtain ⟨rfl, rfl⟩ := List.cons.inj happend
            rw [endsAtLast_cons_iff, if_pos hlow] at hend
            rw [hend]
            rfl
      · -- a high one leaves the rest of the tag to the octets behind it, and less room
        rename_i hhigh
        simp only [bind_eq_ok_iff, Prod.exists, ih, Except.ok.injEq, Prod.mk.injEq]
        constructor
        · rintro ⟨others, _, ⟨rfl, hlength, hend⟩, rfl, rfl⟩
          exact ⟨rfl, Nat.succ_le_succ hlength, endsAtLast_cons_iff.mpr (by rwa [if_neg hhigh])⟩
        · rintro ⟨happend, hlength, hend⟩
          cases more with
          | nil => exact absurd hend (by decide)
          | cons first others =>
            obtain ⟨rfl, rfl⟩ := List.cons.inj happend
            rw [endsAtLast_cons_iff, if_neg hhigh] at hend
            exact ⟨others, rest, ⟨rfl, Nat.le_of_succ_le_succ hlength, hend⟩, rfl, rfl⟩

/-- Reading a tag takes off the front what is a tag. -/
theorem readTag_eq_ok_iff {octets tag rest : Bytes} :
    readTag octets = .ok (tag, rest) ↔ octets = tag ++ rest ∧ IsTag tag := by
  cases octets with
  | nil =>
    constructor
    · exact nofun
    · rintro ⟨hnil, htag⟩
      obtain ⟨rfl, -⟩ := List.append_eq_nil_iff.mp hnil.symm
      exact htag.elim
  | cons first octets =>
    rw [readTag]
    split
    · rename_i hfirst
      simp only [bind_eq_ok_iff, Prod.exists, readTagEnd_eq_ok_iff, Except.ok.injEq,
        Prod.mk.injEq]
      constructor
      · rintro ⟨more, rest', ⟨rfl, hlength, hend⟩, rfl, rfl⟩
        exact ⟨rfl, hlength, by rwa [if_pos hfirst]⟩
      · rintro ⟨happend, htag⟩
        cases tag with
        | nil => exact htag.elim
        | cons first' more =>
          obtain ⟨rfl, hoctets⟩ := by simpa using happend
          obtain ⟨hlength, hend⟩ := htag
          rw [if_pos hfirst] at hend
          exact ⟨more, rest, ⟨hoctets, hlength, hend⟩, rfl, rfl⟩
    · rename_i hfirst
      constructor
      · intro h
        obtain ⟨rfl, rfl⟩ := by simpa using h
        exact ⟨rfl, by simp, by rw [if_neg hfirst]⟩
      · rintro ⟨happend, htag⟩
        cases tag with
        | nil => exact htag.elim
        | cons first' more =>
          obtain ⟨rfl, hoctets⟩ := by simpa using happend
          obtain ⟨-, hmore⟩ := htag
          rw [if_neg hfirst] at hmore
          obtain rfl := hmore
          rw [hoctets]
          rfl

/-! ## Lengths -/

/-- Every length up to `0xFFFFFF` has a written form, and no other length has one. -/
theorem exists_encodeLength_iff {length : Nat} :
    (∃ octets, encodeLength length = .ok octets) ↔ length ≤ 0xffffff := by
  unfold encodeLength
  split
  · exact ⟨nofun, fun h => by omega⟩
  · rename_i hsmall
    refine ⟨fun _ => by omega, fun _ => ?_⟩
    split
    · exact ⟨_, rfl⟩
    · exact ⟨_, rfl⟩

/-- An encoded length has as many octets as its size says. -/
theorem length_of_encodeLength {length : Nat} {octets : Bytes}
    (h : encodeLength length = .ok octets) : octets.length = lengthSize length := by
  unfold encodeLength at h
  unfold lengthSize
  split at h
  · cases h
  · split at h
    · rename_i hshort
      obtain rfl := Except.ok.inj h
      rw [if_pos hshort, List.length_singleton]
    · rename_i hlong
      obtain rfl := Except.ok.inj h
      rw [if_neg hlong, List.length_cons, length_shortest, Nat.add_comm]

/-- A length is read back, whatever stands behind it. -/
theorem readLength_of_encodeLength {length : Nat} {octets : Bytes}
    (h : encodeLength length = .ok octets) (rest : Bytes) :
    readLength (octets ++ rest) = .ok (length, rest) := by
  unfold encodeLength at h
  split at h
  · cases h
  · rename_i hsmall
    split at h
    · -- the length is its own octet
      rename_i hshort
      obtain rfl := Except.ok.inj h
      have hfirst : (UInt8.ofNat length).toNat = length := by
        rw [UInt8.toNat_ofNat']
        omega
      rw [List.cons_append, List.nil_append, readLength, hfirst, if_pos hshort]
    · rename_i hlong
      obtain rfl := Except.ok.inj h
      have hcount := octetCount_le length
      have hpos := octetCount_pos length
      -- the first octet counts the others, at most three, so it does not overflow
      have hfirst : (UInt8.ofNat (0x80 + octetCount length)).toNat
          = 0x80 + octetCount length := by
        rw [UInt8.toNat_ofNat']
        omega
      have hlength := length_shortest length
      have hvalue := ofBigEndian_shortest (n := length) (by omega)
      have htake : (shortest length ++ rest).take (octetCount length) = shortest length := by
        rw [← hlength, List.take_left]
      have hdrop : (shortest length ++ rest).drop (octetCount length) = rest := by
        rw [← hlength, List.drop_left]
      rw [List.cons_append, readLength, hfirst, if_neg (by omega), if_neg (by omega)]
      simp only [Nat.add_sub_cancel_left, htake, hdrop, hvalue, hlength]
      rw [if_neg (by omega), if_neg (by omega), if_neg (by omega)]

/-- A length that is read is in its only encoding, with the rest behind it. -/
theorem encodeLength_of_readLength {octets rest : Bytes} {length : Nat}
    (h : readLength octets = .ok (length, rest)) :
    ∃ written, encodeLength length = .ok written ∧ octets = written ++ rest := by
  cases octets with
  | nil => exact absurd h nofun
  | cons first octets =>
    have hbyte : first.toNat < 256 := first.toNat_lt
    rw [readLength] at h
    split at h
    · rename_i hshort
      obtain ⟨rfl, rfl⟩ := by simpa using h
      refine ⟨[first], ?_, rfl⟩
      rw [encodeLength, if_neg (by omega), if_pos hshort, UInt8.ofNat_toNat]
    · rename_i hlong
      split at h
      · cases h
      · simp only at h
        split at h
        · cases h
        · rename_i hcount
          split at h
          · cases h
          · rename_i hthere
            split at h
            · cases h
            · rename_i hfits
              obtain ⟨rfl, rfl⟩ := by simpa using h
              -- the octets that the first one counts are all there and are the fewest
              generalize hcut : octets.take (first.toNat - 0x80) = written at *
              have hlength : written.length = first.toNat - 0x80 := by
                have hle : written.length ≤ first.toNat - 0x80 := by
                  rw [← hcut]
                  exact List.length_take_le _ _
                omega
              have hwidth : octetCount (ofBigEndian written) = first.toNat - 0x80 := by omega
              have hle : ofBigEndian written ≤ 0xffffff :=
                ofBigEndian_le_of_length_le (by omega)
              have hshortest := shortest_ofBigEndian (hwidth.trans hlength.symm)
              have hfirst : UInt8.ofNat (0x80 + octetCount (ofBigEndian written)) = first := by
                rw [hwidth, show 0x80 + (first.toNat - 0x80) = first.toNat from by omega,
                  UInt8.ofNat_toNat]
              -- the first octet is the count of these, so writing the number gives the same octets
              refine ⟨first :: written, ?_, ?_⟩
              · rw [encodeLength, if_neg (by omega), if_neg (by omega), hfirst, hshortest]
              · rw [List.cons_append, ← hcut, List.take_append_drop]

/-- Reading a length takes its written form off the front. -/
theorem readLength_eq_ok_iff {octets rest : Bytes} {length : Nat} :
    readLength octets = .ok (length, rest) ↔
      ∃ written, encodeLength length = .ok written ∧ octets = written ++ rest := by
  constructor
  · exact encodeLength_of_readLength
  · rintro ⟨written, hwritten, rfl⟩
    exact readLength_of_encodeLength hwritten rest

/-- A length of which only the front is there is not read. -/
theorem readLength_of_cut {length : Nat} {octets front : Bytes}
    (h : encodeLength length = .ok octets) (hfront : front <+: octets)
    (hshort : front.length < octets.length) : readLength front = .error .truncatedLength := by
  cases front with
  | nil => rfl
  | cons first front =>
    unfold encodeLength at h
    split at h
    · cases h
    · split at h
      · -- a length in one octet has no other front
        obtain rfl := Except.ok.inj h
        rw [List.length_cons, List.length_singleton] at hshort
        omega
      · obtain rfl := Except.ok.inj h
        obtain ⟨hfirst, -⟩ := List.cons_prefix_cons.mp hfront
        have hcount := octetCount_le length
        have hpos := octetCount_pos length
        have hvalue : first.toNat = 0x80 + octetCount length := by
          rw [hfirst, UInt8.toNat_ofNat']
          omega
        -- the first octet is there and counts more octets than there are
        rw [List.length_cons, List.length_cons, length_shortest] at hshort
        rw [readLength, hvalue, if_neg (by omega), if_neg (by omega), Nat.add_sub_cancel_left,
          if_neg (by omega)]
        dsimp only
        rw [List.take_of_length_le (by omega), if_pos (by omega)]

/-! ## Headers -/

/-- Reading a header takes the written tag and the written length off the front. -/
theorem readHeader_eq_ok_iff {octets rest : Bytes} {header : Header} :
    readHeader octets = .ok (header, rest) ↔
      ∃ tag length, encodeTag header.tag = .ok tag ∧ encodeLength header.length = .ok length ∧
        octets = tag ++ length ++ rest ∧ header.size = tag.length + length.length := by
  simp only [readHeader, bind_eq_ok_iff, mapError_eq_ok_iff, Prod.exists, readTag_eq_ok_iff,
    readLength_eq_ok_iff, Except.ok.injEq, Prod.mk.injEq]
  constructor
  · rintro ⟨tag, _, ⟨rfl, htag⟩, _, _, ⟨length, hlength, rfl⟩, rfl, rfl⟩
    exact ⟨tag, length, encodeTag_eq_ok_iff.mpr ⟨htag, rfl⟩, hlength,
      (List.append_assoc ..).symm, by rw [length_of_encodeLength hlength]⟩
  · rintro ⟨tag, length, htag, hlength, rfl, hsize⟩
    obtain ⟨htag, hvalue⟩ := encodeTag_eq_ok_iff.mp htag
    refine ⟨tag, length ++ rest, ⟨List.append_assoc .., htag⟩, header.length, rest,
      ⟨length, hlength, rfl⟩, ?_, rfl⟩
    rw [hvalue, ← length_of_encodeLength hlength, ← hsize]

end Tlv

end AccessRules
