import AccessRules.Proofs.Card.Memory

/-!
# Store and card tell the same rules apart

A store compares the keys of rules, which are texts, and the card the octets of their references.
Both compare the fields of a reference, no more and no less (`Rule.key_eq_iff_of_encode`):

1. **Fields** — two keys are the same exactly if the fields are, whatever characters a package name
   is made of (`Rule.key_eq_iff_fields`).

2. **Octets** — what the card compares is the value of the reference inside the encoding of a rule
   (`innermost_of_encode`), and these are the same exactly if the keys are
   (`Memory.encodeAll_reference_eq_iff`).

3. **Replacing** — so a rule takes the place of another one on the card exactly if it does so in a
   store.
-/

namespace AccessRules

/-! ## Fields -/

/-- Keys are the same if all three fields of the references are. -/
theorem Rule.key_eq_iff_fields {rule other : Rule} :
    rule.key = other.key ↔
      rule.reference.target = other.reference.target ∧
        rule.reference.deviceAppId = other.reference.deviceAppId ∧
        rule.reference.packageName = other.reference.packageName := by
  rw [Rule.key_eq_iff]
  constructor
  · intro heq
    rw [heq]
    exact ⟨rfl, rfl, rfl⟩
  · rintro ⟨htarget, hdevice, hname⟩
    obtain ⟨⟨target, deviceAppId, packageName⟩, access⟩ := rule
    obtain rfl : target = other.reference.target := htarget
    obtain rfl : deviceAppId = other.reference.deviceAppId := hdevice
    obtain rfl : packageName = other.reference.packageName := hname
    rfl

/-! ## Octets -/

/-- In encoded objects the value of the first one with a tag is found. -/
theorem valueOf_of_encodeAll {objects : List (Nat × Bytes)} {octets : Bytes}
    (h : encodeAll objects = .ok octets) (tag : Nat) :
    Applet.valueOf tag octets = .ok (objects.lookup tag) := by
  obtain ⟨elements, hdecode, rfl⟩ := decodeFrom_of_encodeAll h 0
  rw [Applet.valueOf, Tlv.decode, hdecode]
  exact congrArg Except.ok (find?_map_value Tlv.Element.object tag elements)

/-- Inside the encoding of a rule the reference is found, which is the encoding of its fields. -/
theorem innermost_of_encode {rule : Rule} {octets : Bytes} (h : rule.encode = .ok octets) :
    ∃ value, encodeAll rule.reference.objects = .ok value ∧
      Applet.innermost [Objects.rule, Objects.reference] octets = .ok (some value) ∧
      Memory.referenceOf octets = .ok (some value) := by
  obtain ⟨reference, access, inside, hreference, -, hinside, houter⟩ := Rule.encode_eq_ok_iff.mp h
  have hrule : Applet.valueOf Objects.rule octets = .ok (some inside) := by
    rw [Applet.valueOf, Tlv.decode_of_encode houter]
    rfl
  have hinner : Applet.valueOf Objects.reference inside = .ok (some reference) :=
    valueOf_of_encodeAll hinside Objects.reference
  refine ⟨reference, hreference, ?_, ?_⟩
  · rw [Applet.innermost, hrule]
    show Applet.innermost [Objects.reference] inside = _
    rw [Applet.innermost, hinner]
    rfl
  · obtain ⟨value, hvalue, hcard⟩ := Memory.referenceOf_of_encode h
    rw [hreference] at hvalue
    rw [hcard, Except.ok.inj hvalue]

/-! ## Replacing -/

/-- **Store and card tell the same rules apart.**  Rules that were made have one key exactly if
    their targets, their device applications and their package names are the same, and exactly if
    the references in their encodings have the same value, which is what the card compares.  So one
    takes the place of the other in a store exactly if it does so on the card. -/
theorem Rule.key_eq_iff_of_encode {rule other : Rule} (hmade : rule.Made) (hmade' : other.Made)
    {octets octets' : Bytes} (hencode : rule.encode = .ok octets)
    (hencode' : other.encode = .ok octets') :
    (rule.key = other.key ↔
      rule.reference.target = other.reference.target ∧
        rule.reference.deviceAppId = other.reference.deviceAppId ∧
        rule.reference.packageName = other.reference.packageName) ∧
    ∃ value value',
      Applet.innermost [Objects.rule, Objects.reference] octets = .ok (some value) ∧
      Applet.innermost [Objects.rule, Objects.reference] octets' = .ok (some value') ∧
      (rule.key = other.key ↔ value = value') ∧
      Memory.referenceOf octets = .ok (some value) ∧
      Memory.referenceOf octets' = .ok (some value') ∧
      (Store.others [rule] other.key = if rule.key = other.key then [] else [rule]) ∧
      Memory.others (some value') [octets] =
        .ok (if rule.key = other.key then [] else [octets]) := by
  have hvalid : rule.Valid := Rule.made_iff_valid.mp hmade
  have hvalid' : other.Valid := Rule.made_iff_valid.mp hmade'
  obtain ⟨value, hvalue, hinner, hreference⟩ := innermost_of_encode hencode
  obtain ⟨value', hvalue', hinner', hreference'⟩ := innermost_of_encode hencode'
  -- the reference objects are the same octets just if the keys are the same
  have hsame : value = value' ↔ rule.key = other.key :=
    Memory.encodeAll_reference_eq_iff hvalid hvalid' hvalue hvalue'
  refine ⟨Rule.key_eq_iff_fields, value, value', hinner, hinner', hsame.symm, hreference,
    hreference', ?_, ?_⟩
  · by_cases hkey : rule.key = other.key
    · rw [if_pos hkey, Store.others_cons_of_eq hkey]
      rfl
    · rw [if_neg hkey, Store.others_cons_of_ne hkey]
      rfl
  · have hothers : Memory.others (some value') [octets] =
        .ok (if value = value' then [] else [octets]) := by
      refine bind_eq_ok_iff.mpr ⟨_, hreference, bind_eq_ok_iff.mpr ⟨[], rfl, ?_⟩⟩
      simp
    by_cases hkey : rule.key = other.key
    · rw [hothers, if_pos hkey, if_pos (hsame.mpr hkey)]
    · rw [hothers, if_neg hkey, if_neg fun heq => hkey (hsame.mp heq)]

/-- A package name with a slash and an asterisk: on the card the rule stays beside one whose name is
    what stands in front of the slash, and gives way to one that is about the same. -/
theorem Rule.key_eq_iff_of_encode_slash :
    let slashed : Rule := ⟨⟨.any, [], some "a/*"⟩, { nfc := some .always }⟩
    let plain : Rule := ⟨⟨.any, [], some "a"⟩, { nfc := some .always }⟩
    let denied : Rule := ⟨⟨.any, [], some "a/*"⟩, { nfc := some .never }⟩
    let octets : Bytes :=
      [0xe2, 16, 0xe1, 9, 0xc0, 0, 0xc1, 0, 0xca, 3, 0x61, 0x2f, 0x2a, 0xe3, 3, 0xd1, 1, 1]
    slashed.encode = .ok octets ∧
    (slashed.key ≠ plain.key ∧
      ∃ value, Memory.referenceOf
          [0xe2, 14, 0xe1, 7, 0xc0, 0, 0xc1, 0, 0xca, 1, 0x61, 0xe3, 3, 0xd1, 1, 1]
            = .ok (some value) ∧
        Memory.others (some value) [octets] = .ok [octets]) ∧
    slashed.key = denied.key ∧
      ∃ value, Memory.referenceOf
          [0xe2, 16, 0xe1, 9, 0xc0, 0, 0xc1, 0, 0xca, 3, 0x61, 0x2f, 0x2a, 0xe3, 3, 0xd1, 1, 0]
            = .ok (some value) ∧
        Memory.others (some value) [octets] = .ok [] := by
  intro slashed plain denied octets
  have hslashed : slashed.Made := .created (show Rule.create slashed.asInput = .ok slashed from rfl)
  have hplain : plain.Made := .created (show Rule.create plain.asInput = .ok plain from rfl)
  have hdenied : denied.Made := .created (show Rule.create denied.asInput = .ok denied from rfl)
  have hencode : slashed.encode = .ok octets := rfl
  refine ⟨hencode, ?_, ?_⟩
  · obtain ⟨hfields, _, value, -, -, -, -, hreference, -, hothers⟩ :=
      Rule.key_eq_iff_of_encode hslashed hplain hencode rfl
    -- a slash in a package name does not make it the key of another reference
    have hkey : slashed.key ≠ plain.key := by
      intro heq
      exact absurd (hfields.mp heq).2.2 (by decide)
    rw [if_neg hkey] at hothers
    exact ⟨hkey, value, hreference, hothers⟩
  · obtain ⟨hfields, _, value, -, -, -, -, hreference, -, hothers⟩ :=
      Rule.key_eq_iff_of_encode hslashed hdenied hencode rfl
    have hkey : slashed.key = denied.key := hfields.mpr ⟨rfl, rfl, rfl⟩
    rw [if_pos hkey] at hothers
    exact ⟨hkey, value, hreference, hothers⟩

end AccessRules
