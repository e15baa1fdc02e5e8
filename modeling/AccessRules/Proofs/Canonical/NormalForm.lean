import AccessRules.Proofs.Canonical.Rows
import AccessRules.Proofs.Store.Keys
import AccessRules.Proofs.Store.Order

/-!
# The normal form of a row of rules

Reading a row of rules into a store and writing the store again gives the normal form of the row
(`normalForm?`).  It differs from the row in the order of children, in the high bits of package
names, and in that of the rules with one key only the last is left.

1. **From a store** — what is written for a store of valid rules is read as this store
   (`decodeStore_of_encode`): writing is one-to-one.

2. **From octets** — a row that is read has a normal form, which is no longer, as its rules are part
   of those of the row (`exists_normal_of_decode`).

3. **Together** — `normalForm_characterized`: taking the normal form twice is taking it once, and a
   row is its own normal form exactly if it is written for valid rules with distinct references.
-/

namespace AccessRules.Canonical

/-- The octets that are written for the store that is read, if there is one and it has an
    encoding. -/
def normalForm? (octets : Bytes) : Option Bytes := do
  let store ← (decodeStore octets).toOption
  (encode store.rules).toOption

/-! ## From a store -/

/-- A store is decoded from octets that are rules in a row. -/
theorem decodeStore_eq_ok_iff {octets : Bytes} {store : Store} :
    decodeStore octets = .ok store ↔
      ∃ rules, decode octets = .ok rules ∧ Store.ofList rules = store :=
  map_eq_ok_iff

/-- What is written for a store of valid rules is read as this store. -/
theorem decodeStore_of_encode {store : Store} (hvalid : ∀ rule ∈ store.rules, rule.Valid)
    {octets : Bytes} (h : encode store.rules = .ok octets) : decodeStore octets = .ok store :=
  decodeStore_eq_ok_iff.mpr ⟨store.rules, decode_of_encode hvalid h, store.ofList_rules⟩

/-! ## From octets -/

/-- A store that was decoded keeps to the limits, as it has no rules but decoded ones. -/
theorem valid_of_decodeStore {octets : Bytes} {store : Store} (h : decodeStore octets = .ok store) :
    ∀ rule ∈ store.rules, rule.Valid := by
  obtain ⟨rules, hdecode, rfl⟩ := decodeStore_eq_ok_iff.mp h
  intro rule hmem
  exact valid_of_decode hdecode rule ((Store.rules_ofList_sublist rules).subset hmem)

/-- A store that is read has an encoding, no longer than what it was read from. -/
theorem exists_normal_of_decode {octets : Bytes} {store : Store}
    (h : decodeStore octets = .ok store) :
    ∃ normal, encode store.rules = .ok normal ∧ normal.length ≤ octets.length := by
  obtain ⟨rules, hdecode, rfl⟩ := decodeStore_eq_ok_iff.mp h
  obtain ⟨canonical, hencode, hlength⟩ := exists_encode_of_decode hdecode
  obtain ⟨normal, hnormal, hle⟩ := encode_of_sublist (Store.rules_ofList_sublist rules) hencode
  exact ⟨normal, hnormal, hlength ▸ hle⟩

/-- The normal form is the encoding of the store that octets stand for. -/
theorem normalForm?_eq_some {octets normal : Bytes} {store : Store}
    (hdecode : decodeStore octets = .ok store) (hencode : encode store.rules = .ok normal) :
    normalForm? octets = some normal := by
  show (decodeStore octets).toOption.bind _ = _
  rw [hdecode]
  show (encode store.rules).toOption = _
  rw [hencode]
  rfl

/-- A row is written for the store that it is read as exactly if it is written for some valid rules
    with distinct references. -/
theorem eq_normal_iff {octets normal : Bytes} {store : Store}
    (hdecode : decodeStore octets = .ok store) (hencode : encode store.rules = .ok normal) :
    normal = octets ↔
      ∃ rules, (∀ rule ∈ rules, rule.Valid) ∧ (rules.map Rule.reference).Nodup ∧
        encode rules = .ok octets := by
  constructor
  · rintro rfl
    exact ⟨store.rules, valid_of_decodeStore hdecode, nodup_map_key_iff.mp store.distinct, hencode⟩
  · rintro ⟨rules, hvalid, hdistinct, hrules⟩
    -- rules with distinct keys are a store, and the octets cannot be read as another one
    have hstore : decodeStore octets = .ok ⟨rules, nodup_map_key_iff.mpr hdistinct⟩ :=
      decodeStore_of_encode hvalid hrules
    rw [hdecode] at hstore
    obtain rfl := Except.ok.inj hstore
    rw [hencode] at hrules
    exact Except.ok.inj hrules

/-! ## Together -/

/-- **Rows of rules have a normal form.**  What is written for a store of created rules is read as
    this store.  And a row that is read has a normal form that is no longer than the row, is read as
    the same store and is its own normal form; it is the row itself exactly if the row is written
    for created rules with distinct references. -/
theorem normalForm_characterized :
    (∀ (store : Store) (octets : Bytes),
      (∀ rule ∈ store.rules, ∃ input, Rule.create input = .ok rule) →
        encode store.rules = .ok octets → decodeStore octets = .ok store) ∧
    (∀ (octets : Bytes) (store : Store), decodeStore octets = .ok store →
      ∃ normal, normalForm? octets = some normal ∧ normal.length ≤ octets.length ∧
        decodeStore normal = .ok store ∧ normalForm? normal = some normal ∧
        (normal = octets ↔
          ∃ rules, (∀ rule ∈ rules, ∃ input, Rule.create input = .ok rule) ∧
            (rules.map Rule.reference).Nodup ∧ encode rules = .ok octets)) := by
  simp only [Rule.exists_create_iff_valid]
  refine ⟨fun store octets hvalid hencode => decodeStore_of_encode hvalid hencode, ?_⟩
  intro octets store hdecode
  obtain ⟨normal, hencode, hle⟩ := exists_normal_of_decode hdecode
  -- the normal form stands for the same store, so its own normal form is itself
  have hagain : decodeStore normal = .ok store :=
    decodeStore_of_encode (valid_of_decodeStore hdecode) hencode
  exact ⟨normal, normalForm?_eq_some hdecode hencode, hle, hagain,
    normalForm?_eq_some hagain hencode, eq_normal_iff hdecode hencode⟩

/-- Of two rules about the same the normal form keeps the last one. -/
theorem normalForm_of_repeated_reference :
    decodeStore [0xe2, 11, 0xe1, 4, 0xc0, 0, 0xc1, 0, 0xe3, 3, 0xd1, 1, 0,
        0xe2, 11, 0xe1, 4, 0xc0, 0, 0xc1, 0, 0xe3, 3, 0xd1, 1, 1]
      = .ok (Store.ofList [⟨⟨.any, [], none⟩, { nfc := some .always }⟩]) ∧
    normalForm? [0xe2, 11, 0xe1, 4, 0xc0, 0, 0xc1, 0, 0xe3, 3, 0xd1, 1, 0,
        0xe2, 11, 0xe1, 4, 0xc0, 0, 0xc1, 0, 0xe3, 3, 0xd1, 1, 1]
      = some [0xe2, 11, 0xe1, 4, 0xc0, 0, 0xc1, 0, 0xe3, 3, 0xd1, 1, 1] ∧
    normalForm? [0xe2, 11, 0xe1, 4, 0xc0, 0, 0xc1, 0, 0xe3, 3, 0xd1, 1, 1]
      = some [0xe2, 11, 0xe1, 4, 0xc0, 0, 0xc1, 0, 0xe3, 3, 0xd1, 1, 1] := by
  have hvalid : ∀ permission, Rule.Valid ⟨⟨.any, [], none⟩, { nfc := some permission }⟩ :=
    fun permission => ⟨⟨trivial, List.mem_cons_self, nofun⟩, ⟨nofun, nofun, nofun⟩⟩
  have hrow : decode [0xe2, 11, 0xe1, 4, 0xc0, 0, 0xc1, 0, 0xe3, 3, 0xd1, 1, 0,
        0xe2, 11, 0xe1, 4, 0xc0, 0, 0xc1, 0, 0xe3, 3, 0xd1, 1, 1]
      = .ok [⟨⟨.any, [], none⟩, { nfc := some .never }⟩,
        ⟨⟨.any, [], none⟩, { nfc := some .always }⟩] :=
    decode_of_encode (by simp [hvalid]) rfl
  -- the second rule takes the place of the first one
  have hstore : Store.ofList [⟨⟨.any, [], none⟩, { nfc := some .never }⟩,
        ⟨⟨.any, [], none⟩, { nfc := some .always }⟩]
      = Store.ofList [⟨⟨.any, [], none⟩, { nfc := some .always }⟩] := by decide
  have hdecode := decodeStore_eq_ok_iff.mpr ⟨_, hrow, hstore⟩
  obtain ⟨normal, hnormal, -, -, hself, -⟩ := normalForm_characterized.2 _ _ hdecode
  have hwritten := normalForm?_eq_some hdecode rfl
  obtain rfl := Option.some.inj (hnormal.symm.trans hwritten)
  exact ⟨hdecode, hnormal, hself⟩

end AccessRules.Canonical
