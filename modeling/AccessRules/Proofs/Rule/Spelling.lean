import AccessRules.Proofs.Rule.Arrangement

/-!
# What decoding a rule forgets

Two strings of octets are the same up to the order of children if they are arrangements of the same
objects (`SameUpToOrder`).  Decoding is meant to forget nothing but this order.  It forgets one
thing more: the high bits of the octets that spell the package name.

1. **With its own encoding** — octets that are read as a rule are the encoding of the rule up to
   order exactly if no octet of the package name has a high bit (`sameUpToOrder_encode_iff`).

2. **With each other** — octets that are read as one rule are the same up to order exactly if the
   package name has the same octets in both (`sameUpToOrder_iff_of_arranged`).

3. **The whole** — `decodeAt_eq_ok_iff_spelled` puts these beside the exact condition under which
   octets are read at all; `high_bit_forgotten` is an input on which the high bit is forgotten.
-/

namespace AccessRules

/-! ## Octets up to the order of children -/

/-- `SameUpToOrder octets octets'` — both are one rule object, with the same objects in the
    reference and the same objects in the access, each time in some order. -/
def SameUpToOrder (octets octets' : Bytes) : Prop :=
  ∃ reference access, Arranged reference access octets ∧ Arranged reference access octets'

/-- `Plain spelling` — no octet of the spelling of a package name, if there is one, has a high
    bit. -/
def Plain (spelling : Option Bytes) : Prop :=
  ∀ octets ∈ spelling, ∀ octet ∈ octets, octet.toNat < 0x80

/-- How the objects are listed does not matter to an arrangement of them. -/
theorem Arranged.of_perm {reference access reference' access' : List (Nat × Bytes)}
    {octets : Bytes} (h : Arranged reference access octets) (hreference : reference.Perm reference')
    (haccess : access.Perm access') : Arranged reference' access' octets := by
  obtain ⟨_, _, halves, r, a, v, hperm, hr, hperm', ha, hrest⟩ := h
  exact ⟨_, _, halves, r, a, v, hperm.trans hreference, hr, hperm'.trans haccess, ha, hrest⟩

/-- What octets are the same as is an arrangement of the same objects. -/
theorem SameUpToOrder.arranged {octets octets' : Bytes} (h : SameUpToOrder octets octets')
    {reference access : List (Nat × Bytes)} (harranged : Arranged reference access octets) :
    Arranged reference access octets' := by
  obtain ⟨reference', access', hfirst, hsecond⟩ := h
  obtain ⟨hreference, haccess⟩ := hfirst.perm harranged
  exact hsecond.of_perm hreference haccess

/-- The objects of a reference tell how its package name is spelled. -/
theorem Reference.perm_objectsWith {reference : Reference} {spelling spelling' : Option Bytes} :
    (reference.objectsWith spelling).Perm (reference.objectsWith spelling') ↔
      spelling = spelling' := by
  have hname : ∀ spelling, (reference.objectsWith spelling).lookup Objects.packageRef = spelling :=
    fun spelling =>
      ((Reference.perm_objectsWith_iff (reference.holds_objectsWith spelling)).mp (.refl _)).2.2.2
  constructor
  · intro hperm
    have hlookup := lookup_eq_of_perm (reference.holds_objectsWith spelling).distinct hperm
      Objects.packageRef
    rwa [hname, hname] at hlookup
  · rintro rfl
    exact .refl _

/-! ## With its own encoding -/

variable {rule : Rule} {octets octets' canonical : Bytes} {spelling spelling' : Option Bytes}

/-- A spelling is the one that is written for the name if it is plain. -/
theorem Spells.eq_iff_plain {packageName : Option String} (h : Spells spelling packageName) :
    packageName.map Text.lowOctets = spelling ↔ Plain spelling := by
  unfold Spells at h
  subst h
  cases spelling with
  | none => exact ⟨fun _ => nofun, fun _ => rfl⟩
  | some octets =>
    rw [Option.map_some, Option.map_some, Option.some.injEq, Text.lowOctets_ofSevenBit_eq_iff]
    constructor
    · intro hlow octets' hmem
      exact Option.mem_some.mp hmem ▸ hlow
    · intro hplain
      exact hplain octets rfl

/-- Octets that are read as a rule are its encoding up to order exactly if the package name is
    plain. -/
theorem sameUpToOrder_encode_iff
    (harranged : Arranged (rule.reference.objectsWith spelling) rule.access.objects octets)
    (hspells : Spells spelling rule.reference.packageName) (hencode : rule.encode = .ok canonical) :
    SameUpToOrder canonical octets ↔ Plain spelling := by
  have hcanonical := arranged_of_encode hencode
  rw [Reference.objects_eq_objectsWith] at hcanonical
  rw [← hspells.eq_iff_plain]
  constructor
  · intro hsame
    exact Reference.perm_objectsWith.mp ((hsame.arranged hcanonical).perm harranged).1
  · intro heq
    rw [heq] at hcanonical
    exact ⟨_, _, hcanonical, harranged⟩

/-! ## With each other -/

/-- Octets that are read as one rule are the same up to order exactly if the package name is spelled
    the same in both. -/
theorem sameUpToOrder_iff_of_arranged
    (h : Arranged (rule.reference.objectsWith spelling) rule.access.objects octets)
    (h' : Arranged (rule.reference.objectsWith spelling') rule.access.objects octets') :
    SameUpToOrder octets octets' ↔ spelling = spelling' := by
  constructor
  · intro hsame
    exact Reference.perm_objectsWith.mp ((hsame.arranged h).perm h').1
  · rintro rfl
    exact ⟨_, _, h, h'⟩

/-! ## The whole -/

/-- **Decoding forgets the order of children and the high bits of the package name.**  Octets are
    read as a rule exactly if the rule is one that creating returns and they are an arrangement of
    its objects in which the package name has some octets that spell it.  The rule then has an
    encoding, and the octets are this encoding up to order exactly if the spelling is plain; any
    other octets that are read as the rule are the same up to order exactly if they spell it
    alike. -/
theorem decodeAt_eq_ok_iff_spelled (start : Int) (octets : Bytes) (rule : Rule) :
    Rule.decodeAt start octets = .ok rule ↔
      (∃ input, Rule.create input = .ok rule) ∧
      ∃ spelling, Spells spelling rule.reference.packageName ∧
        Arranged (rule.reference.objectsWith spelling) rule.access.objects octets ∧
        (∃ canonical, rule.encode = .ok canonical ∧
          (SameUpToOrder canonical octets ↔ Plain spelling)) ∧
        ∀ start' octets', Rule.decodeAt start' octets' = .ok rule →
          ∃ spelling', Arranged (rule.reference.objectsWith spelling') rule.access.objects octets' ∧
            (SameUpToOrder octets octets' ↔ spelling = spelling') := by
  rw [Rule.decodeAt_eq_ok_iff, Rule.read_eq_ok_iff, Rule.exists_create_iff_valid]
  constructor
  · rintro ⟨hvalid, spelling, hspells, harranged⟩
    obtain ⟨canonical, hencode, -⟩ := harranged.exists_encode hspells
    refine ⟨hvalid, spelling, hspells, harranged,
      ⟨canonical, hencode, sameUpToOrder_encode_iff harranged hspells hencode⟩, ?_⟩
    -- other octets of the rule have a spelling of their own, and nothing else can differ but the
    -- order
    intro start' octets' hread
    rw [Rule.decodeAt_eq_ok_iff, Rule.read_eq_ok_iff] at hread
    obtain ⟨-, spelling', -, harranged'⟩ := hread
    exact ⟨spelling', harranged', sameUpToOrder_iff_of_arranged harranged harranged'⟩
  · rintro ⟨hvalid, spelling, hspells, harranged, -, -⟩
    exact ⟨hvalid, spelling, hspells, harranged⟩

/-- The package name `a` is read from `E1` as well as from `61`: two strings of octets that differ
    in the value of a primitive object are read as one rule, and the first one is not its encoding
    in any order. -/
theorem high_bit_forgotten :
    Rule.decodeAt 0 [0xe2, 14, 0xe1, 7, 0xc0, 0, 0xc1, 0, 0xca, 1, 0xe1, 0xe3, 3, 0xd1, 1, 1]
        = .ok ⟨⟨.any, [], some "a"⟩, { nfc := some .always }⟩ ∧
      Rule.decodeAt 0 [0xe2, 14, 0xe1, 7, 0xc0, 0, 0xc1, 0, 0xca, 1, 0x61, 0xe3, 3, 0xd1, 1, 1]
        = .ok ⟨⟨.any, [], some "a"⟩, { nfc := some .always }⟩ ∧
      (∀ canonical, Rule.encode ⟨⟨.any, [], some "a"⟩, { nfc := some .always }⟩ = .ok canonical →
        ¬ SameUpToOrder canonical
          [0xe2, 14, 0xe1, 7, 0xc0, 0, 0xc1, 0, 0xca, 1, 0xe1, 0xe3, 3, 0xd1, 1, 1]) := by
  have hvalid : Rule.Valid ⟨⟨.any, [], some "a"⟩, { nfc := some .always }⟩ :=
    ⟨⟨trivial, by decide, by decide⟩, ⟨nofun, nofun, nofun⟩⟩
  have hspells : Spells (some [0xe1]) (some "a") := by
    show some (Text.ofSevenBit [0xe1]) = some "a"
    decide
  have hhigh : Arranged (Reference.objectsWith ⟨.any, [], some "a"⟩ (some [0xe1]))
      (Access.objects { nfc := some .always })
      [0xe2, 14, 0xe1, 7, 0xc0, 0, 0xc1, 0, 0xca, 1, 0xe1, 0xe3, 3, 0xd1, 1, 1] :=
    ⟨_, _, _, _, _, _, .refl _, rfl, .refl _, rfl, .refl _, rfl, rfl⟩
  refine ⟨?_, ?_, ?_⟩
  · rw [Rule.decodeAt_eq_ok_iff, Rule.read_eq_ok_iff]
    exact ⟨hvalid, some [0xe1], hspells, hhigh⟩
  · rw [Rule.decodeAt_eq_ok_iff]
    exact Rule.read_of_encode hvalid rfl
  · intro canonical hencode
    rw [sameUpToOrder_encode_iff hhigh hspells hencode]
    -- the octet has its high bit set
    intro hplain
    exact absurd (hplain [0xe1] rfl 0xe1 (by decide)) (by decide)

end AccessRules
