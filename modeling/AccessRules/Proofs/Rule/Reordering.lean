import AccessRules.Proofs.Rule.Spelling

/-!
# The order of children decides nothing

A rule is written with its children in one order and read with them in any order
(`Rule.decodeAt_of_reordered`):

1. **Reading** — octets that are the encoding of a rule up to the order of children are an
   arrangement of the objects of the rule, and each of these is read as the rule
   (`Rule.read_of_sameUpToOrder`).

2. **Every order is there** — an encoding is as long in any order, so no length outgrows what can be
   written where the children of the reference, those of the access and the two halves are put in
   another order (`exists_encode_of_orders`).
-/

namespace AccessRules

variable {rule : Rule} {canonical : Bytes}

/-- The encoding of a valid rule is read as this rule in any order of children. -/
theorem Rule.read_of_sameUpToOrder (hvalid : rule.Valid) (hencode : rule.encode = .ok canonical)
    {octets : Bytes} (hsame : SameUpToOrder canonical octets) : Rule.read octets = .ok rule := by
  have hcanonical := arranged_of_encode hencode
  rw [Reference.objects_eq_objectsWith] at hcanonical
  exact Rule.read_eq_ok_iff.mpr
    ⟨hvalid, _, Reference.spells hvalid.reference, hsame.arranged hcanonical⟩

/-- The objects of a rule have an encoding in any order, as long as that of the rule. -/
theorem exists_encode_of_orders (hencode : rule.encode = .ok canonical)
    {referenceOrder accessOrder : List (Nat × Bytes)}
    (hreference : referenceOrder.Perm rule.reference.objects)
    (haccess : accessOrder.Perm rule.access.objects) :
    ∃ referenceValue accessValue, encodeAll referenceOrder = .ok referenceValue ∧
      encodeAll accessOrder = .ok accessValue ∧
      ∀ halves : List (Nat × Bytes),
        halves.Perm [(Objects.reference, referenceValue), (Objects.access, accessValue)] →
          ∃ value octets, encodeAll halves = .ok value ∧
            Tlv.encode Objects.rule value = .ok octets ∧ octets.length = canonical.length ∧
            SameUpToOrder canonical octets := by
  have hcanonical := arranged_of_encode hencode
  obtain ⟨r, a, v, first, hr, ha, hv, hfirst, hlength⟩ :=
    (hcanonical.of_perm hreference.symm haccess.symm).encode_of_shape_eq rfl rfl
  refine ⟨r, a, hr, ha, fun halves hhalves => ?_⟩
  -- the halves in either order have values of one length, and these encodings of one length
  obtain ⟨value, hvalue, hsize⟩ := encodeAll_of_perm hhalves.symm hv
  obtain ⟨octets, hoctets, hlength'⟩ := encode_of_length_eq hfirst hsize
  have harranged : Arranged rule.reference.objects rule.access.objects octets :=
    ⟨referenceOrder, accessOrder, halves, r, a, value, hreference, hr, haccess, ha, hhalves, hvalue,
      hoctets⟩
  exact ⟨value, octets, hvalue, hoctets, hlength'.trans hlength, _, _, hcanonical, harranged⟩

/-- **The order of children decides nothing.**  Whatever starts it is read from, the encoding of a
    created rule is read as this rule in any order of the children of the reference, of the access
    and of the two halves.  And it can be written in each of these orders, with as many octets. -/
theorem Rule.decodeAt_of_reordered {input : RuleInput} (hcreate : Rule.create input = .ok rule)
    (hencode : rule.encode = .ok canonical) :
    (∀ octets, SameUpToOrder canonical octets → ∀ start, Rule.decodeAt start octets = .ok rule) ∧
    ∀ referenceOrder accessOrder : List (Nat × Bytes),
      referenceOrder.Perm rule.reference.objects → accessOrder.Perm rule.access.objects →
        ∃ referenceValue accessValue, encodeAll referenceOrder = .ok referenceValue ∧
          encodeAll accessOrder = .ok accessValue ∧
          ∀ halves : List (Nat × Bytes),
            halves.Perm [(Objects.reference, referenceValue), (Objects.access, accessValue)] →
              ∃ value octets, encodeAll halves = .ok value ∧
                Tlv.encode Objects.rule value = .ok octets ∧ octets.length = canonical.length ∧
                ∀ start, Rule.decodeAt start octets = .ok rule := by
  have hvalid : rule.Valid := Rule.exists_create_iff_valid.mp ⟨input, hcreate⟩
  have hread : ∀ octets, SameUpToOrder canonical octets →
      ∀ start, Rule.decodeAt start octets = .ok rule :=
    fun octets hsame start =>
      Rule.decodeAt_eq_ok_iff.mpr (Rule.read_of_sameUpToOrder hvalid hencode hsame)
  refine ⟨hread, fun referenceOrder accessOrder hreference haccess => ?_⟩
  obtain ⟨r, a, hr, ha, hall⟩ := exists_encode_of_orders hencode hreference haccess
  refine ⟨r, a, hr, ha, fun halves hhalves => ?_⟩
  obtain ⟨value, octets, hvalue, hoctets, hlength, hsame⟩ := hall halves hhalves
  exact ⟨value, octets, hvalue, hoctets, hlength, hread octets hsame⟩

/-- A rule with a filter and a package name, all its children in reverse. -/
theorem Rule.decodeAt_of_reversed :
    let rule : Rule := ⟨⟨.aid [0xa0], [], some "a"⟩,
      { apdu := some (.filtered [⟨[0, 1, 2, 3], [4, 5, 6, 7]⟩]), nfc := some .always }⟩
    Rule.create rule.asInput = .ok rule ∧
    rule.encode = .ok [0xe2, 25, 0xe1, 8, 0x4f, 1, 0xa0, 0xc1, 0, 0xca, 1, 0x61,
      0xe3, 13, 0xd0, 8, 0, 1, 2, 3, 4, 5, 6, 7, 0xd1, 1, 1] ∧
    Rule.decodeAt 7 [0xe2, 25, 0xe3, 13, 0xd1, 1, 1, 0xd0, 8, 0, 1, 2, 3, 4, 5, 6, 7,
      0xe1, 8, 0xca, 1, 0x61, 0xc1, 0, 0x4f, 1, 0xa0] = .ok rule := by
  intro rule
  have hcreate : Rule.create rule.asInput = .ok rule := rfl
  have hencode : rule.encode = .ok [0xe2, 25, 0xe1, 8, 0x4f, 1, 0xa0, 0xc1, 0, 0xca, 1, 0x61,
      0xe3, 13, 0xd0, 8, 0, 1, 2, 3, 4, 5, 6, 7, 0xd1, 1, 1] := rfl
  -- both halves are turned around, and then so are their objects
  obtain ⟨r, a, hr, ha, hall⟩ := (Rule.decodeAt_of_reordered hcreate hencode).2
    rule.reference.objects.reverse rule.access.objects.reverse
    (List.reverse_perm _) (List.reverse_perm _)
  obtain rfl := Except.ok.inj hr
  obtain rfl := Except.ok.inj ha
  obtain ⟨value, octets, hvalue, hoctets, -, hdecode⟩ := hall _ (List.Perm.swap _ _ [])
  obtain rfl := Except.ok.inj hvalue
  obtain rfl := Except.ok.inj hoctets
  exact ⟨hcreate, hencode, hdecode 7⟩

end AccessRules
