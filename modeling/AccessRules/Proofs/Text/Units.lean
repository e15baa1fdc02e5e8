import AccessRules.Text.Units

/-!
# Seven bits of an octet

Reading a text from the low seven bits of octets and writing it again clears the high bit of every
octet and changes nothing else (`lowOctets_ofSevenBit`).  So on octets below `0x80`, and only there,
the octets are known again from the text that they spell (`lowOctets_ofSevenBit_eq_iff`); a text of
characters below `0x80` is always known again (`ofSevenBit_lowOctets`).
-/

namespace AccessRules.Text

/-- `clearHighBit octet` — the low seven bits of the octet. -/
def clearHighBit (octet : UInt8) : UInt8 := UInt8.ofNat (octet.toNat % 128)

/-- Without its high bit an octet is what is left over by 128. -/
theorem toNat_clearHighBit (octet : UInt8) : (clearHighBit octet).toNat = octet.toNat % 128 := by
  rw [clearHighBit, UInt8.toNat_ofNat']
  omega

/-- Only octets of seven bits are kept as they are. -/
theorem clearHighBit_eq_iff {octet : UInt8} : clearHighBit octet = octet ↔ octet.toNat < 128 := by
  rw [← UInt8.toNat_inj, toNat_clearHighBit]
  omega

theorem toNat_ofNat_of_lt {n : Nat} (hn : n < 128) : (Char.ofNat n).toNat = n := by
  have hvalid : n.isValidChar := Or.inl (by omega)
  rw [Char.ofNat, dif_pos hvalid]
  rfl

/-- A character up to `0xFFFF` is one unit. -/
theorem units_of_le {c : Char} (hc : c.toNat ≤ 0xffff) : units c = [c.toNat] := by
  simp only [units]
  rw [if_pos hc]

/-- Reading seven bits of each octet and writing them again clears the high bits. -/
theorem lowOctets_ofSevenBit (octets : Bytes) :
    lowOctets (ofSevenBit octets) = octets.map clearHighBit := by
  simp only [lowOctets, ofSevenBit, String.toList_ofList]
  induction octets with
  | nil => rfl
  | cons octet octets ih =>
    have hlow : octet.toNat % 128 < 128 := by omega
    have hchar := toNat_ofNat_of_lt hlow
    have hunits : units (Char.ofNat (octet.toNat % 128)) = [octet.toNat % 128] := by
      rw [units_of_le (by omega), hchar]
    rw [List.map_cons, List.flatMap_cons, hunits, List.map_append, ih]
    rfl

/-- Octets are known again from the text that they spell if none of them has a high bit, and only
    then. -/
theorem lowOctets_ofSevenBit_eq_iff {octets : Bytes} :
    lowOctets (ofSevenBit octets) = octets ↔ ∀ octet ∈ octets, octet.toNat < 128 := by
  rw [lowOctets_ofSevenBit]
  induction octets with
  | nil => simp
  | cons octet octets ih =>
    rw [List.map_cons, List.cons.injEq, ih, clearHighBit_eq_iff, List.forall_mem_cons]

/-- A text of characters below `0x80` is known again from its octets. -/
theorem ofSevenBit_lowOctets {text : String} (h : ∀ c ∈ text.toList, c.toNat < 128) :
    ofSevenBit (lowOctets text) = text := by
  rw [← String.toList_inj]
  simp only [lowOctets, ofSevenBit, String.toList_ofList]
  generalize text.toList = characters at h
  induction characters with
  | nil => rfl
  | cons c characters ih =>
    have hc : c.toNat < 128 := h c List.mem_cons_self
    have hoctet : (UInt8.ofNat c.toNat).toNat % 128 = c.toNat := by
      rw [UInt8.toNat_ofNat']
      omega
    rw [List.flatMap_cons, units_of_le (by omega), List.cons_append, List.nil_append,
      List.map_cons, List.map_cons, hoctet, Char.ofNat_toNat,
      ih fun c' hmem => h c' (List.mem_cons_of_mem c hmem)]

end AccessRules.Text
