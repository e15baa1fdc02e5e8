import AccessRules.Proofs.Rule.Decoding

/-!
# Arrangements of a rule

`Arranged reference access octets` says that the octets are one rule object in which the primitive
objects `reference` and `access` stand in some order.

1. **Decoding** — octets are read as a rule exactly if the rule is valid and they are an arrangement
   of its objects in which octets that spell the package name stand for it (`Rule.read_eq_ok_iff`).
   Places, and the start that they are counted from, decide nothing (`Rule.decodeAt_eq_ok_iff`).

2. **Sizes** — whether objects have an encoding, and how long it is, depends on their tags and on
   the lengths of their values only, in any order (`encodeAll_of_perm`, `encodeAll_of_shape_eq`).
   So a rule that has an arrangement has an encoding, and of the same length
   (`Arranged.exists_encode`).

3. **Uniqueness** — octets are an arrangement of one collection of objects at most
   (`Arranged.perm`).

The rules that are created or decoded are the valid ones (`Rule.made_iff_valid`).
-/

namespace AccessRules

/-! ## Arrangements -/

/-- `Arranged reference access octets` — the octets are one rule object; of its two children, which
    may stand in either order, one is a reference that holds the objects `reference` in some order
    and the other an access that holds the objects `access` in some order. -/
def Arranged (reference access : List (Nat × Bytes)) (octets : Bytes) : Prop :=
  ∃ referenceOrder accessOrder halves referenceValue accessValue value,
    referenceOrder.Perm reference ∧ encodeAll referenceOrder = .ok referenceValue ∧
      accessOrder.Perm access ∧ encodeAll accessOrder = .ok accessValue ∧
      halves.Perm [(Objects.reference, referenceValue), (Objects.access, accessValue)] ∧
      encodeAll halves = .ok value ∧ Tlv.encode Objects.rule value = .ok octets

theorem holds_halves (reference access : Bytes) :
    Container.rule.Holds [(Objects.reference, reference), (Objects.access, access)] := by
  constructor <;> simp [Container.allowed, Objects.reference, Objects.access]

/-- In either order the halves are found by their tags. -/
theorem perm_halves_iff {objects : List (Nat × Bytes)} (h : Container.rule.Holds objects)
    {reference access : Bytes} :
    objects.Perm [(Objects.reference, reference), (Objects.access, access)] ↔
      objects.lookup Objects.reference = some reference ∧
        objects.lookup Objects.access = some access := by
  constructor
  · intro hperm
    have hlookup := lookup_eq_of_perm h.distinct hperm
    rw [hlookup, hlookup]
    exact ⟨rfl, rfl⟩
  · rintro ⟨hreference, haccess⟩
    apply perm_of_lookup_eq h (holds_halves reference access)
    intro tag hmem
    simp only [Container.allowed, List.mem_cons, List.not_mem_nil, or_false] at hmem
    rcases hmem with rfl | rfl
    · exact hreference
    · exact haccess

/-- Octets are read as a rule exactly if it is valid and they are an arrangement of its objects, in
    which the package name is spelled by some octets. -/
theorem Rule.read_eq_ok_iff {octets : Bytes} {rule : Rule} :
    Rule.read octets = .ok rule ↔
      rule.Valid ∧ ∃ spelling, Spells spelling rule.reference.packageName ∧
        Arranged (rule.reference.objectsWith spelling) rule.access.objects octets := by
  simp only [Rule.read, bind_eq_ok_iff, mapError_eq_ok_iff, Prod.exists, require_eq_ok_iff,
    childOr_eq_ok_iff, Except.ok.injEq]
  constructor
  · rintro ⟨outer, _, houter, -, htag, -, rfl, children, hread, inReference, hreference, inAccess,
      haccess, reference, hreads, access, hreads', rfl⟩
    obtain ⟨written, hwritten, rfl, -, -⟩ := Tlv.readElement_eq_ok_iff.mp houter
    rw [htag] at hwritten
    obtain ⟨hencode, hholds⟩ := encodeAll_of_childrenIn hread
    -- each half is read from its objects in the order that they come in
    obtain ⟨hvalid, spelling, referenceOrder, hspells, hperm, hvalue⟩ :=
      readReferenceObject_eq_ok_iff.mp hreads
    obtain ⟨hvalid', accessOrder, hperm', hvalue'⟩ := readAccessObject_eq_ok_iff.mp hreads'
    refine ⟨⟨hvalid, hvalid'⟩, spelling, hspells, referenceOrder, accessOrder,
      childObjects children, inReference.item.value, inAccess.item.value, outer.value, hperm,
      hvalue, hperm', hvalue', (perm_halves_iff hholds).mpr ⟨?_, ?_⟩, hencode, ?_⟩
    · rw [← child?_map_value, hreference]
      rfl
    · rw [← child?_map_value, haccess]
      rfl
    · rwa [List.append_nil]
  · rintro ⟨hvalid, spelling, hspells, referenceOrder, accessOrder, halves, referenceValue,
      accessValue, value, hperm, hvalue, hperm', hvalue', hhalves, hencode, hwritten⟩
    -- the halves are looked up by their tags, so their order plays no part from here on
    have hholds := (holds_halves referenceValue accessValue).of_perm hhalves.symm
    obtain ⟨hreference, haccess⟩ := (perm_halves_iff hholds).mp hhalves
    let outer : Placed Tlv.Element := ⟨⟨Objects.rule, value, 0, octets.length⟩, []⟩
    have hinside : encodeAll halves = .ok outer.item.value := hencode
    obtain ⟨children, hread, rfl⟩ := childrenIn_of_encodeAll hinside hholds
    rw [← child?_map_value, Option.map_eq_some_iff] at hreference haccess
    obtain ⟨inReference, hchild, rfl⟩ := hreference
    obtain ⟨inAccess, hchild', rfl⟩ := haccess
    have houter := Tlv.readElement_of_encode hwritten []
    rw [List.append_nil] at houter
    refine ⟨_, _, houter, (), rfl, (), rfl, children, hread, inReference, hchild, inAccess, hchild',
      rule.reference, ?_, rule.access, ?_, rfl⟩
    · exact readReferenceObject_eq_ok_iff.mpr
        ⟨hvalid.reference, spelling, referenceOrder, hspells, hperm, hvalue⟩
    · exact readAccessObject_eq_ok_iff.mpr ⟨hvalid.access, accessOrder, hperm', hvalue'⟩

/-- The start that places are counted from decides nothing. -/
theorem Rule.decodeAt_eq_ok_iff {start : Int} {octets : Bytes} {rule : Rule} :
    Rule.decodeAt start octets = .ok rule ↔ Rule.read octets = .ok rule :=
  mapError_eq_ok_iff

/-- What is decoded is what is read. -/
theorem Rule.decode_eq_ok_iff {octets : Bytes} {rule : Rule} :
    Rule.decode octets = .ok rule ↔ Rule.read octets = .ok rule :=
  mapError_eq_ok_iff

/-- A decoded rule is valid. -/
theorem Rule.valid_of_read {octets : Bytes} {rule : Rule} (h : Rule.read octets = .ok rule) :
    rule.Valid :=
  (Rule.read_eq_ok_iff.mp h).1

/-- `rule.Made` — the rule was created from some input or decoded from some octets. -/
inductive Rule.Made (rule : Rule) : Prop
  | created {input : RuleInput} (h : Rule.create input = .ok rule)
  | decoded {start : Int} {octets : Bytes} (h : Rule.decodeAt start octets = .ok rule)

/-- The rules that are made are the valid ones. -/
theorem Rule.made_iff_valid {rule : Rule} : rule.Made ↔ rule.Valid := by
  constructor
  · intro h
    cases h with
    | created h => exact Rule.exists_create_iff_valid.mp ⟨_, h⟩
    | decoded h => exact Rule.valid_of_read (Rule.decodeAt_eq_ok_iff.mp h)
  · intro h
    obtain ⟨input, hcreate⟩ := Rule.exists_create_iff_valid.mpr h
    exact .created hcreate

/-! ## Sizes -/

/-- Values of one length have encodings of one length. -/
theorem encode_of_length_eq {tag : Nat} {value other octets : Bytes}
    (h : Tlv.encode tag value = .ok octets) (hlength : other.length = value.length) :
    ∃ octets', Tlv.encode tag other = .ok octets' ∧ octets'.length = octets.length := by
  obtain ⟨first, second, htag, hlen, rfl⟩ := Tlv.encode_eq_ok_iff.mp h
  refine ⟨first ++ second ++ other, Tlv.encode_eq_ok_iff.mpr ⟨first, second, htag, ?_, rfl⟩, ?_⟩
  · rw [hlength]
    exact hlen
  · simp only [List.length_append, hlength]

/-- The tag of an object and the length of its value. -/
def shape (object : Nat × Bytes) : Nat × Nat := (object.1, object.2.length)

/-- Rows of the same tags and lengths have encodings of one length. -/
theorem encodeAll_of_shape_eq {objects others : List (Nat × Bytes)} {octets : Bytes}
    (hshape : objects.map shape = others.map shape) (h : encodeAll objects = .ok octets) :
    ∃ octets', encodeAll others = .ok octets' ∧ octets'.length = octets.length := by
  induction objects generalizing others octets with
  | nil =>
    obtain rfl : others = [] := List.map_eq_nil_iff.mp hshape.symm
    exact ⟨octets, h, rfl⟩
  | cons object objects ih =>
    obtain ⟨tag, value⟩ := object
    obtain ⟨⟨tag', value'⟩, others, rfl, hhead, htail⟩ := List.map_eq_cons_iff.mp hshape.symm
    obtain ⟨rfl, hlength⟩ := Prod.mk.inj hhead
    obtain ⟨first, rest, hfirst, hrest, rfl⟩ := encodeAll_cons_eq_ok_iff.mp h
    obtain ⟨first', hfirst', hsize⟩ := encode_of_length_eq hfirst hlength
    obtain ⟨rest', hrest', hsize'⟩ := ih htail.symm hrest
    exact ⟨first' ++ rest', encodeAll_cons_eq_ok_iff.mpr ⟨first', rest', hfirst', hrest', rfl⟩,
      by rw [List.length_append, List.length_append, hsize, hsize']⟩

/-- Rows of the same objects have encodings of one length. -/
theorem encodeAll_of_perm {objects others : List (Nat × Bytes)} {octets : Bytes}
    (hperm : objects.Perm others) (h : encodeAll objects = .ok octets) :
    ∃ octets', encodeAll others = .ok octets' ∧ octets'.length = octets.length := by
  induction hperm generalizing octets with
  | nil => exact ⟨octets, h, rfl⟩
  | cons object _ ih =>
    obtain ⟨first, rest, hfirst, hrest, rfl⟩ := encodeAll_cons_eq_ok_iff.mp h
    obtain ⟨rest', hrest', hsize⟩ := ih hrest
    exact ⟨first ++ rest', encodeAll_cons_eq_ok_iff.mpr ⟨first, rest', hfirst, hrest', rfl⟩,
      by rw [List.length_append, List.length_append, hsize]⟩
  | swap object other objects =>
    obtain ⟨first, _, hfirst, hmore, rfl⟩ := encodeAll_cons_eq_ok_iff.mp h
    -- two objects that change places have the same octets in the other order
    obtain ⟨second, rest, hsecond, hrest, rfl⟩ := encodeAll_cons_eq_ok_iff.mp hmore
    have hswapped := encodeAll_cons_eq_ok_iff.mpr ⟨first, rest, hfirst, hrest, rfl⟩
    refine ⟨second ++ (first ++ rest),
      encodeAll_cons_eq_ok_iff.mpr ⟨second, _, hsecond, hswapped, rfl⟩, ?_⟩
    simp only [List.length_append]
    omega
  | trans _ _ ih ih' =>
    obtain ⟨middle, hmiddle, hsize⟩ := ih h
    obtain ⟨octets', hoctets', hsize'⟩ := ih' hmiddle
    exact ⟨octets', hoctets', hsize'.trans hsize⟩

/-- Objects of the same tags and lengths have arrangements of one length; this one has the objects
    in their order. -/
theorem Arranged.encode_of_shape_eq {reference access others others' : List (Nat × Bytes)}
    {octets : Bytes} (h : Arranged reference access octets)
    (hshape : reference.map shape = others.map shape)
    (hshape' : access.map shape = others'.map shape) :
    ∃ referenceValue accessValue value canonical, encodeAll others = .ok referenceValue ∧
      encodeAll others' = .ok accessValue ∧
      encodeAll [(Objects.reference, referenceValue), (Objects.access, accessValue)] = .ok value ∧
      Tlv.encode Objects.rule value = .ok canonical ∧ canonical.length = octets.length := by
  obtain ⟨referenceOrder, accessOrder, halves, r, a, v, hperm, hr, hperm', ha, hhalves, hv, ho⟩ := h
  -- order first and then contents are exchanged, from the halves out to the whole
  obtain ⟨r₁, hr₁, hlr₁⟩ := encodeAll_of_perm hperm hr
  obtain ⟨r₂, hr₂, hlr₂⟩ := encodeAll_of_shape_eq hshape hr₁
  obtain ⟨a₁, ha₁, hla₁⟩ := encodeAll_of_perm hperm' ha
  obtain ⟨a₂, ha₂, hla₂⟩ := encodeAll_of_shape_eq hshape' ha₁
  obtain ⟨v₁, hv₁, hlv₁⟩ := encodeAll_of_perm hhalves hv
  have hhalves' : [(Objects.reference, r), (Objects.access, a)].map shape
      = [(Objects.reference, r₂), (Objects.access, a₂)].map shape := by
    simp only [List.map_cons, List.map_nil, shape, hlr₂, hlr₁, hla₂, hla₁]
  obtain ⟨v₂, hv₂, hlv₂⟩ := encodeAll_of_shape_eq hhalves' hv₁
  obtain ⟨o₂, ho₂, hlo₂⟩ := encode_of_length_eq ho (hlv₂.trans hlv₁)
  exact ⟨r₂, a₂, v₂, o₂, hr₂, ha₂, hv₂, ho₂, hlo₂⟩

/-! ## The encoding -/

/-- A rule is written as its halves in a data object, each with its objects in the order of the
format. -/
theorem Rule.encode_eq_ok_iff {rule : Rule} {octets : Bytes} :
    rule.encode = .ok octets ↔
      ∃ referenceValue accessValue value, encodeAll rule.reference.objects = .ok referenceValue ∧
        encodeAll rule.access.objects = .ok accessValue ∧
        encodeAll [(Objects.reference, referenceValue), (Objects.access, accessValue)] = .ok value ∧
        Tlv.encode Objects.rule value = .ok octets := by
  simp only [Rule.encode, bind_eq_ok_iff]
  constructor
  · rintro ⟨reference, hreference, access, haccess, value, hvalue, hoctets⟩
    exact ⟨reference, access, value, hreference, haccess, hvalue, hoctets⟩
  · rintro ⟨reference, access, value, hreference, haccess, hvalue, hoctets⟩
    exact ⟨reference, hreference, access, haccess, value, hvalue, hoctets⟩

/-- The encoding of a rule is an arrangement of its objects. -/
theorem arranged_of_encode {rule : Rule} {octets : Bytes} (h : rule.encode = .ok octets) :
    Arranged rule.reference.objects rule.access.objects octets := by
  obtain ⟨reference, access, value, hreference, haccess, hvalue, hoctets⟩ :=
    Rule.encode_eq_ok_iff.mp h
  exact ⟨_, _, _, reference, access, value, .refl _, hreference, .refl _, haccess, .refl _, hvalue,
    hoctets⟩

/-- Octets that spell a package name are as many as are written for it. -/
theorem Spells.shape_eq {reference : Reference} {spelling : Option Bytes}
    (h : Spells spelling reference.packageName) :
    (reference.objectsWith spelling).map shape = reference.objects.map shape := by
  rw [Reference.objects_eq_objectsWith, ← h]
  cases spelling with
  | none => rfl
  | some octets =>
    simp only [Reference.objectsWith, Option.map_some, Option.toList_some, List.map_cons,
      List.map_nil, shape, Text.lowOctets_ofSevenBit, List.length_map]

/-- A rule with an arrangement has an encoding, of the same length. -/
theorem Arranged.exists_encode {rule : Rule} {spelling : Option Bytes} {octets : Bytes}
    (h : Arranged (rule.reference.objectsWith spelling) rule.access.objects octets)
    (hspells : Spells spelling rule.reference.packageName) :
    ∃ canonical, rule.encode = .ok canonical ∧ canonical.length = octets.length := by
  obtain ⟨r, a, v, canonical, hr, ha, hv, hcanonical, hlength⟩ :=
    h.encode_of_shape_eq hspells.shape_eq rfl
  exact ⟨canonical, Rule.encode_eq_ok_iff.mpr ⟨r, a, v, hr, ha, hv, hcanonical⟩, hlength⟩

/-- The encoding of a valid rule is read as this rule. -/
theorem Rule.read_of_encode {rule : Rule} (hvalid : rule.Valid) {octets : Bytes}
    (h : rule.encode = .ok octets) : Rule.read octets = .ok rule := by
  refine Rule.read_eq_ok_iff.mpr ⟨hvalid, _, Reference.spells hvalid.reference, ?_⟩
  rw [← Reference.objects_eq_objectsWith]
  exact arranged_of_encode h

/-- A decoded rule has an encoding, as long as what it was decoded from. -/
theorem Rule.exists_encode_of_read {octets : Bytes} {rule : Rule}
    (h : Rule.read octets = .ok rule) :
    ∃ canonical, rule.encode = .ok canonical ∧ canonical.length = octets.length := by
  obtain ⟨-, spelling, hspells, harranged⟩ := Rule.read_eq_ok_iff.mp h
  exact harranged.exists_encode hspells

/-! ## Uniqueness -/

/-- Octets are an arrangement of one collection of objects at most. -/
theorem Arranged.perm {reference access reference' access' : List (Nat × Bytes)} {octets : Bytes}
    (h : Arranged reference access octets) (h' : Arranged reference' access' octets) :
    reference.Perm reference' ∧ access.Perm access' := by
  obtain ⟨_, _, halves, r, a, v, hperm, hr, hperm', ha, hhalves, hv, ho⟩ := h
  obtain ⟨_, _, halves', r', a', v', hpermR, hr', hpermA, ha', hhalves', hv', ho'⟩ := h'
  -- from the outside in: the same octets have one value, and the same value has the same objects
  have hvalue : v = v' := by
    have hread := Tlv.readElement_of_encode ho []
    rw [Tlv.readElement_of_encode ho' []] at hread
    simpa using hread.symm
  obtain rfl := hvalue
  obtain rfl := encodeAll_injective hv hv'
  have hholds := (holds_halves r a).of_perm hhalves.symm
  obtain ⟨hlookup, hlookup'⟩ := (perm_halves_iff hholds).mp hhalves
  obtain ⟨hother, hother'⟩ := (perm_halves_iff hholds).mp hhalves'
  rw [hlookup, Option.some.injEq] at hother
  rw [hlookup', Option.some.injEq] at hother'
  obtain ⟨rfl, rfl⟩ := And.intro hother hother'
  obtain rfl := encodeAll_injective hr hr'
  obtain rfl := encodeAll_injective ha ha'
  exact ⟨hperm.symm.trans hpermR, hperm'.symm.trans hpermA⟩

end AccessRules
