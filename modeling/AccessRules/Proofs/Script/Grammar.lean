import AccessRules.Proofs.Script.Clauses
import AccessRules.Proofs.Script.Printing

/-!
# The grammar of rules in scripts

A line that stores a rule is read exactly if its words spell clauses that describe a rule, and the
rule is the described one (`read_storeRule_iff`).

1. **Groups** — words that are read are options in a row (`exists_options_of_sayGroups`).  Options
   that spell clauses have no flag among their values, so their words fall apart into them again
   (`noFlag_of_spelled`).  Words therefore spell one list of clauses at most (`Spelled.eq`).

2. **Limits** — `Describes clauses rule` says what the clauses have to say for a rule, limit by
   limit.  It is the same as a draft that the clauses say and that makes this rule
   (`describes_iff`).

3. **Order** — what clauses describe does not depend on their order, except for the order of the
   octets of filters (`Describes.rearrange`).
-/

namespace AccessRules.Script

/-! ## Groups -/

/-- A value goes to the group in front of it. -/
theorem groups_cons_value {word : String} (h : isFlag word = false) (words : List String) :
    groups (word :: words) = (word :: (groups words).1, (groups words).2) :=
  groups_append (List.forall_mem_singleton.mpr h) words

/-- Words are the ones in front of the first flag and the groups behind it. -/
theorem flatMap_groups (words : List String) :
    (groups words).1 ++ (groups words).2.flatMap (fun group => group.flag :: group.values) =
      words := by
  induction words with
  | nil => rfl
  | cons word words ih =>
    by_cases hflag : isFlag word = true
    · rw [groups_cons_flag hflag, List.nil_append, List.flatMap_cons, List.cons_append, ih]
    · rw [groups_cons_value (Bool.eq_false_iff.mpr hflag), List.cons_append, ih]

/-- What stands behind a flag up to the next one are no flags. -/
theorem noFlag_of_mem_groups (words : List String) :
    (∀ word ∈ (groups words).1, isFlag word = false) ∧
      ∀ group ∈ (groups words).2, ∀ value ∈ group.values, isFlag value = false := by
  induction words with
  | nil => exact ⟨nofun, nofun⟩
  | cons word words ih =>
    by_cases hflag : isFlag word = true
    · rw [groups_cons_flag hflag]
      exact ⟨nofun, List.forall_mem_cons.mpr ih⟩
    · have hword := Bool.eq_false_iff.mpr hflag
      rw [groups_cons_value hword]
      exact ⟨List.forall_mem_cons.mpr ⟨hword, ih.1⟩, ih.2⟩

/-- Groups that are accepted are options. -/
theorem exists_options_of_sayGroups {found : List Group} {draft final : Draft}
    (h : found.foldlM Draft.sayGroup draft = .ok final) :
    ∃ options : List (Flag × List String), found = options.map optionGroup := by
  induction found generalizing draft with
  | nil => exact ⟨[], rfl⟩
  | cons group found ih =>
    rw [List.foldlM_cons] at h
    obtain ⟨next, hsay, hrest⟩ := bind_eq_ok_iff.mp h
    obtain ⟨options, rfl⟩ := ih hrest
    obtain ⟨word, values⟩ := group
    rw [Draft.sayGroup] at hsay
    split at hsay
    · rename_i flag hflag
      obtain rfl : flag.word = word := by simpa using List.find?_some hflag
      exact ⟨(flag, values) :: options, rfl⟩
    · cases hsay

/-! ## Values are no flags -/

/-- Digits in either case are not taken for an option. -/
theorem noFlag_of_digits {word : String} {octets : Bytes} (h : word.toLower = Hex.encode octets) :
    isFlag word = false := by
  refine isFlag_eq_false fun hhead => ?_
  have hlower : (Hex.encode octets).toList = word.toList.map Char.toLower := by
    rw [← h]
    exact String.toList_map
  have hmem : '-' ∈ (Hex.encode octets).toList := by
    rw [hlower]
    exact List.mem_map.mpr ⟨'-', List.mem_of_head? hhead, by decide⟩
  exact (Hex.ne_of_mem_encode hmem).2.2 rfl

/-- What spells octets is not taken for an option. -/
theorem noFlag_of_spells {word : String} {octets : Bytes} (h : Spells word octets) :
    isFlag word = false := by
  rcases h with ⟨rfl, -⟩ | ⟨hdigits, -⟩
  · decide
  · exact noFlag_of_digits hdigits

theorem noFlag_of_filters {words : List String} {values : List Bytes}
    (h : List.Forall₂ SpellsFilters words values) : ∀ word ∈ words, isFlag word = false := by
  have hwords := h.imp fun word octets hword =>
    And.intro (noFlag_of_digits hword.digits) hword
  exact ((List.forall₂_and_left words values).mp hwords).1

/-- No value of a spelled clause is taken for an option. -/
theorem noFlag_of_spelled {clause : Clause} {option : Flag × List String}
    (h : clause.Spelled option) : ∀ value ∈ option.2, isFlag value = false := by
  cases h with
  | aid hspells => exact List.forall_mem_singleton.mpr (noFlag_of_spells hspells)
  | anyAid => exact nofun
  | deviceAppId hspells => exact List.forall_mem_singleton.mpr (noFlag_of_spells hspells)
  | packageName hname => exact List.forall_mem_singleton.mpr hname
  | apdu => exact nofun
  | filters _ hspells => exact noFlag_of_filters hspells
  | nfc => exact nofun
  | permissions hdigits => exact List.forall_mem_singleton.mpr (noFlag_of_digits hdigits)

/-! ## What clauses describe -/

/-- `Spelled clauses words` — the words are options in a row that are ways to write the clauses. -/
def Spelled (clauses : List Clause) (words : List String) : Prop :=
  ∃ options, List.Forall₂ Clause.Spelled clauses options ∧ words = options.flatMap optionWords

/-- `Describes clauses rule` — the clauses say everything that a rule must say, nothing of it twice
    except filters, and keep to the limits; the rule has exactly what they say. -/
structure Describes (clauses : List Clause) (rule : Rule) : Prop where
  target : ∃ octets, clauses.filterMap Clause.target? = [octets] ∧ octets.length ≤ 16 ∧
    rule.reference.target = Target.ofOctets octets
  deviceAppId : clauses.filterMap Clause.deviceAppId? = [rule.reference.deviceAppId] ∧
    rule.reference.deviceAppId.length ∈ [0, 20, 32]
  packageName : clauses.filterMap Clause.packageName? = rule.reference.packageName.toList ∧
    ∀ name ∈ rule.reference.packageName, isPackageName name = true
  apdu : ApduSaid (clauses.filterMap Clause.apdu?) (clauses.flatMap Clause.filterOctets)
    rule.access.apdu
  nfc : clauses.filterMap Clause.nfc? = rule.access.nfc.toList
  permissions : clauses.filterMap Clause.permissions? = rule.access.permissions.toList
  present : rule.access ≠ {}

/-- What is said about commands is within the limits: filters are cut whole. -/
theorem ApduSaid.valid {wholes : List Permission} {octets : Bytes} {apdu : Option ApduAccess}
    (h : ApduSaid wholes octets apdu) : ∀ access ∈ apdu, access.Valid := by
  rintro access hmem
  obtain rfl := Option.mem_def.mp hmem
  cases access with
  | whole permission => trivial
  | filtered filters => exact h.2.2

/-- A target made of octets is only too long, if anything. -/
theorem Target.valid_ofOctets_iff {octets : Bytes} :
    (Target.ofOctets octets).Valid ↔ octets.length ≤ maxAidSize := by
  unfold Target.ofOctets
  split
  · rename_i hnil
    subst hnil
    exact ⟨fun _ => Nat.zero_le _, fun _ => trivial⟩
  · rename_i hsome
    exact ⟨fun h => h.2, fun h => ⟨hsome, h⟩⟩

/-- What has to be said was said. -/
theorem required_eq_ok_iff {α : Type} {flag : Flag} {said : Option α} {a : α} :
    required flag said = .ok a ↔ said = some a := by
  cases said with
  | none => exact ⟨nofun, nofun⟩
  | some b => rw [required, Except.ok.injEq, Option.some.injEq]

/-- A draft makes a rule exactly if it says everything that a rule must say and the rule is
    valid. -/
theorem Draft.rule_eq_ok_iff {draft : Draft} {rule : Rule} :
    draft.rule = .ok rule ↔
      ∃ aid, draft = ⟨some aid, some rule.reference.deviceAppId, rule.reference.packageName,
        rule.access⟩ ∧ rule.reference.target = Target.ofOctets aid ∧ rule.Valid := by
  simp only [Draft.rule, bind_eq_ok_iff, required_eq_ok_iff, mapError_eq_ok_iff,
    Rule.create_eq_ok_iff]
  obtain ⟨aid, deviceAppId, packageName, access⟩ := draft
  constructor
  · rintro ⟨octets, rfl, device, rfl, hvalid, htarget, hdevice, rfl, rfl⟩
    obtain rfl := Except.ok.inj hdevice
    exact ⟨octets, rfl, (Except.ok.inj htarget).symm, hvalid⟩
  · rintro ⟨octets, heq, htarget, hvalid⟩
    cases heq
    exact ⟨octets, rfl, _, rfl, hvalid, congrArg Except.ok htarget.symm, rfl, rfl, rfl⟩

/-- A mask that is spelled has the right length. -/
theorem length_of_spelled {clause : Clause} {option : Flag × List String}
    (h : clause.Spelled option) : ∀ mask ∈ clause.permissions?, mask.length = permissionsSize := by
  cases h with
  | permissions _ hsize =>
    rintro mask hmask
    obtain rfl := Option.some.inj hmask
    exact hsize
  | _ => exact nofun

section Spelled

variable {clauses : List Clause} {options : List (Flag × List String)}

/-- Every mask that is written has eight octets. -/
theorem length_of_mem_permissions (h : List.Forall₂ Clause.Spelled clauses options) :
    ∀ mask ∈ clauses.filterMap Clause.permissions?, mask.length = permissionsSize := by
  have hclauses := h.imp fun clause option hspelled =>
    And.intro (length_of_spelled hspelled) hspelled
  intro mask hmask
  obtain ⟨clause, hclause, hsaid⟩ := List.mem_filterMap.mp hmask
  exact ((List.forall₂_and_left clauses options).mp hclauses).1 clause hclause mask hsaid

/-- No value of spelled clauses is taken for an option. -/
theorem noFlag_of_forall (h : List.Forall₂ Clause.Spelled clauses options) :
    ∀ option ∈ options, ∀ value ∈ option.2, isFlag value = false := by
  have hoptions := h.flip.imp fun option clause hspelled =>
    And.intro (noFlag_of_spelled hspelled) hspelled
  exact ((List.forall₂_and_left options clauses).mp hoptions).1

/-- Clauses that are written describe a rule exactly if some draft is what they say and makes this
    rule. -/
theorem describes_iff (h : List.Forall₂ Clause.Spelled clauses options) {rule : Rule} :
    Describes clauses rule ↔ ∃ draft, Says clauses draft ∧ draft.rule = .ok rule := by
  simp only [Draft.rule_eq_ok_iff]
  constructor
  · intro hrule
    obtain ⟨octets, htarget, hsize, heq⟩ := hrule.target
    obtain ⟨hdevice, hdeviceSize⟩ := hrule.deviceAppId
    obtain ⟨hname, hnameValid⟩ := hrule.packageName
    -- the draft has what the clauses say, and the rule keeps to the limits
    refine ⟨⟨some octets, some rule.reference.deviceAppId, rule.reference.packageName,
      rule.access⟩, ⟨htarget, hdevice, hname, hrule.apdu, hrule.nfc, hrule.permissions⟩, octets,
      rfl, heq, ⟨⟨?_, hdeviceSize, hnameValid⟩, ⟨hrule.present, hrule.apdu.valid, ?_⟩⟩⟩
    · rw [heq]
      exact Target.valid_ofOctets_iff.mpr hsize
    · intro mask hmask
      refine length_of_mem_permissions h mask ?_
      rw [hrule.permissions]
      exact Option.mem_toList.mpr hmask
  · rintro ⟨draft, hdraft, octets, rfl, heq, hvalid⟩
    have htarget := hvalid.reference.target
    rw [heq] at htarget
    exact ⟨⟨octets, hdraft.target, Target.valid_ofOctets_iff.mp htarget, heq⟩,
      ⟨hdraft.deviceAppId, hvalid.reference.deviceAppId⟩,
      ⟨hdraft.packageName, hvalid.reference.packageName⟩, hdraft.apdu, hdraft.nfc,
      hdraft.permissions, hvalid.access.present⟩

end Spelled

/-! ## One reading -/

/-- A word spells one string of octets at most. -/
theorem Spells.eq {word : String} {octets others : Bytes} (h : Spells word octets)
    (hothers : Spells word others) : octets = others := by
  have hread : readOctets "" word = .ok octets := readOctets_eq_ok_iff.mpr h
  exact Except.ok.inj (hread.symm.trans (readOctets_eq_ok_iff.mpr hothers))

/-- An option spells one clause at most. -/
theorem leftUnique_spelled : Relator.LeftUnique Clause.Spelled := by
  intro clause other option h hother
  cases h with
  | aid hspells =>
    cases hother with
    | aid hspells' => rw [hspells.eq hspells']
  | anyAid =>
    cases hother
    rfl
  | deviceAppId hspells =>
    cases hother with
    | deviceAppId hspells' => rw [hspells.eq hspells']
  | packageName =>
    cases hother
    rfl
  | apdu =>
    cases hother
    rfl
  | filters _ hspells =>
    cases hother with
    | filters _ hspells' =>
      -- filter by filter, the digits are of one string of octets
      have hunique : Relator.RightUnique SpellsFilters := fun _ _ _ hword hword' =>
        Hex.encode_injective (hword.digits.symm.trans hword'.digits)
      rw [List.right_unique_forall₂' hunique hspells hspells']
  | nfc =>
    cases hother
    rfl
  | permissions hdigits =>
    cases hother with
    | permissions hdigits' => rw [Hex.encode_injective (hdigits.symm.trans hdigits')]

/-- An option is known from the group of words that it is written as. -/
theorem optionGroup_injective : Function.Injective optionGroup := by
  rintro ⟨flag, values⟩ ⟨flag', values'⟩ h
  obtain ⟨hword, rfl⟩ := Group.mk.inj h
  have hflag := Flag.ofWord?_word flag
  rw [hword, Flag.ofWord?_word] at hflag
  obtain rfl : flag' = flag := Option.some.inj hflag
  rfl

/-- Words spell one list of clauses at most. -/
theorem Spelled.eq {clauses others : List Clause} {words : List String} (h : Spelled clauses words)
    (hothers : Spelled others words) : clauses = others := by
  obtain ⟨options, hspelled, rfl⟩ := h
  obtain ⟨options', hspelled', hwords⟩ := hothers
  have hgroups := groups_optionWords (noFlag_of_forall hspelled)
  rw [hwords, groups_optionWords (noFlag_of_forall hspelled')] at hgroups
  obtain rfl := List.map_injective_iff.mpr optionGroup_injective (Prod.mk.inj hgroups).2
  exact List.left_unique_forall₂' leftUnique_spelled hspelled hspelled'

/-! ## Words -/

/-- No clauses say nothing. -/
theorem says_nil : Says [] {} := ⟨rfl, rfl, rfl, ⟨rfl, rfl⟩, rfl, rfl⟩

/-- Words are read as a rule exactly if they spell clauses that describe it. -/
theorem readRule_eq_ok_iff {words : List String} {rule : Rule} :
    readRule words = .ok rule ↔ ∃ clauses, Spelled clauses words ∧ Describes clauses rule := by
  simp only [readRule, bind_eq_ok_iff, noMore_eq_ok_iff]
  constructor
  · rintro ⟨_, hloose, draft, hsay, hrule⟩
    obtain ⟨options, hgroups⟩ := exists_options_of_sayGroups hsay
    have hvalues : ∀ option ∈ options, ∀ value ∈ option.2, isFlag value = false := by
      have hnone := (noFlag_of_mem_groups words).2
      rw [hgroups] at hnone
      exact fun option hoption => hnone _ (List.mem_map_of_mem hoption)
    rw [hgroups, foldlM_sayGroup] at hsay
    obtain ⟨clauses, hspelled, hdraft⟩ := (sayAll_eq_ok_iff hvalues says_nil).mp hsay
    -- there are no loose words, so the groups are all that the words are
    have hall := flatMap_groups words
    rw [hloose, hgroups, List.flatMap_map, List.nil_append] at hall
    exact ⟨clauses, ⟨options, hspelled, hall.symm⟩,
      (describes_iff hspelled).mpr ⟨draft, hdraft, hrule⟩⟩
  · rintro ⟨clauses, ⟨options, hspelled, rfl⟩, hdescribes⟩
    obtain ⟨draft, hdraft, hrule⟩ := (describes_iff hspelled).mp hdescribes
    have hvalues := noFlag_of_forall hspelled
    rw [groups_optionWords hvalues]
    refine ⟨(), rfl, draft, ?_, hrule⟩
    rw [foldlM_sayGroup]
    exact (sayAll_eq_ok_iff hvalues says_nil).mpr ⟨clauses, hspelled, hdraft⟩

/-! ## Order -/

/-- The clauses that say no filters. -/
def others (clauses : List Clause) : List Clause :=
  clauses.filter fun clause => clause.filterOctets = []

section Order

variable {clauses arranged : List Clause}

/-- What is said once at most is said by the other clauses, in any order of them. -/
theorem filterMap_eq_of_perm {α : Type} {f : Clause → Option α} {said : Option α}
    (hperm : (others clauses).Perm (others arranged)) (hf : ∀ values, f (.filters values) = none)
    (h : clauses.filterMap f = said.toList) : arranged.filterMap f = said.toList := by
  have hothers : ∀ clauses : List Clause, (others clauses).filterMap f = clauses.filterMap f := by
    intro clauses
    rw [others, List.filterMap_filter]
    refine List.filterMap_congr fun clause _ => ?_
    by_cases hnone : clause.filterOctets = []
    · rw [if_pos (decide_eq_true hnone)]
    · rw [if_neg (by simpa using hnone)]
      -- only filters are left out, and they say nothing of this kind
      cases clause with
      | filters values => exact (hf values).symm
      | _ => exact absurd rfl hnone
  have hsame := hperm.filterMap f
  rw [hothers, hothers, h] at hsame
  cases said with
  | none => exact List.nil_perm.mp hsame
  | some a => exact (List.singleton_perm.mp hsame).symm

/-- At most one permission for all commands is said. -/
theorem ApduSaid.exists_whole {wholes : List Permission} {octets : Bytes}
    {apdu : Option ApduAccess} (h : ApduSaid wholes octets apdu) :
    ∃ said : Option Permission, wholes = said.toList := by
  rcases apdu with _ | permission | filters
  · exact ⟨none, h.1⟩
  · exact ⟨some permission, h.1⟩
  · exact ⟨none, h.1⟩

/-- The order of clauses does not matter, nor does the spread of filters over them, as long as the
    octets of all filters in a row are the same. -/
theorem Describes.rearrange {rule : Rule} (h : Describes clauses rule)
    (hperm : (others clauses).Perm (others arranged))
    (hoctets : clauses.flatMap Clause.filterOctets = arranged.flatMap Clause.filterOctets) :
    Describes arranged rule := by
  obtain ⟨octets, htarget, hsize, heq⟩ := h.target
  obtain ⟨hdevice, hdeviceSize⟩ := h.deviceAppId
  obtain ⟨hname, hnameValid⟩ := h.packageName
  obtain ⟨whole, hwhole⟩ := h.apdu.exists_whole
  have hsaid : ∀ {α : Type} {f : Clause → Option α} (said : Option α),
      (∀ values, f (.filters values) = none) → clauses.filterMap f = said.toList →
        arranged.filterMap f = said.toList := fun _ hf => filterMap_eq_of_perm hperm hf
  refine ⟨⟨octets, hsaid (some octets) (fun _ => rfl) htarget, hsize, heq⟩,
    ⟨hsaid (some _) (fun _ => rfl) hdevice, hdeviceSize⟩,
    ⟨hsaid _ (fun _ => rfl) hname, hnameValid⟩, ?_, hsaid _ (fun _ => rfl) h.nfc,
    hsaid _ (fun _ => rfl) h.permissions, h.present⟩
  rw [hsaid whole (fun _ => rfl) hwhole, ← hwhole, ← hoctets]
  exact h.apdu

end Order

/-! ## Lines -/

/-- The operation on a line of words without blanks. -/
theorem parse?_storeRule {tokens : List String} (h : ∀ token ∈ tokens, Text.IsWord token) :
    Operation.parse? (" ".intercalate (storeRuleWord :: tokens)) =
      (readRule tokens).map fun rule => some (.storeRule rule) := by
  have hwords : ∀ word ∈ storeRuleWord :: tokens, Text.IsWord word :=
    List.forall_mem_cons.mpr ⟨Text.isWord_of_all (by decide) (by decide), h⟩
  rw [Operation.parse?, Text.words_intercalate hwords]
  show (if storeRuleWord.toList.head? = some '#' then _ else _) = _
  rw [if_neg (by decide)]
  show ((readRule tokens).map Operation.storeRule).map some = _
  cases readRule tokens <;> rfl

/-- **The grammar of rules.**  A line that stores a rule is read exactly if its words spell clauses
    that describe a rule, and it stores this rule.  A line with the same clauses in another order is
    read as the same, also if filters are spread over other clauses and values. -/
theorem read_storeRule_iff {tokens : List String}
    (htokens : ∀ token ∈ tokens, token ≠ "" ∧ ∀ c ∈ token.toList, Text.isBlank c = false) :
    (∀ read, Operation.parse? (" ".intercalate (storeRuleWord :: tokens)) = .ok read ↔
      ∃ clauses rule, Spelled clauses tokens ∧ Describes clauses rule ∧
        read = some (.storeRule rule)) ∧
    ∀ clauses arranged words, Spelled clauses tokens → Spelled arranged words →
      (∀ word ∈ words, word ≠ "" ∧ ∀ c ∈ word.toList, Text.isBlank c = false) →
      (others clauses).Perm (others arranged) →
      clauses.flatMap Clause.filterOctets = arranged.flatMap Clause.filterOctets →
      ∀ read, Operation.parse? (" ".intercalate (storeRuleWord :: words)) = .ok read ↔
        Operation.parse? (" ".intercalate (storeRuleWord :: tokens)) = .ok read := by
  have hread : ∀ {words : List String},
      (∀ word ∈ words, word ≠ "" ∧ ∀ c ∈ word.toList, Text.isBlank c = false) →
      ∀ read, Operation.parse? (" ".intercalate (storeRuleWord :: words)) = .ok read ↔
        ∃ clauses rule, Spelled clauses words ∧ Describes clauses rule ∧
          read = some (.storeRule rule) := by
    intro words hwords read
    have hsolid : ∀ word ∈ words, Text.IsWord word := fun word hword =>
      ⟨(hwords word hword).1, (hwords word hword).2⟩
    rw [parse?_storeRule hsolid, map_eq_ok_iff]
    constructor
    · rintro ⟨rule, hrule, rfl⟩
      obtain ⟨clauses, hspelled, hdescribes⟩ := readRule_eq_ok_iff.mp hrule
      exact ⟨clauses, rule, hspelled, hdescribes, rfl⟩
    · rintro ⟨clauses, rule, hspelled, hdescribes, rfl⟩
      exact ⟨rule, readRule_eq_ok_iff.mpr ⟨clauses, hspelled, hdescribes⟩, rfl⟩
  refine ⟨hread htokens, ?_⟩
  intro clauses arranged words htoken hspelled hwords hperm hoctets read
  rw [hread hwords, hread htokens]
  -- both lines spell no other clauses than these
  constructor
  · rintro ⟨found, rule, hfound, hdescribes, rfl⟩
    obtain rfl := hfound.eq hspelled
    exact ⟨clauses, rule, htoken, hdescribes.rearrange hperm.symm hoctets.symm, rfl⟩
  · rintro ⟨found, rule, hfound, hdescribes, rfl⟩
    obtain rfl := hfound.eq htoken
    exact ⟨arranged, rule, hspelled, hdescribes.rearrange hperm hoctets, rfl⟩

/-- Two filters in values of their own or in one value, with the other options in another order and
    digits of either case. -/
theorem read_storeRule_two_orders :
    let rule : Rule := ⟨⟨.aid [0xa0], [], none⟩, ⟨some (.filtered
      [⟨[0, 0xa4, 0, 0], [255, 255, 0, 0]⟩, ⟨[0x80, 0xca, 0, 0], [0, 255, 0, 0]⟩]),
      some .always, none⟩⟩
    Operation.parse? ("store-rule --nfc-always --apdu-filter 00A40000FFFF0000 " ++
      "--device-app-id empty --apdu-filter 80ca000000ff0000 --aid A0") =
        .ok (some (.storeRule rule)) ∧
    Operation.parse? ("store-rule --aid a0 --device-app-id empty " ++
      "--apdu-filter 00a40000ffff000080CA000000FF0000 --nfc-always") =
        .ok (some (.storeRule rule)) := by
  intro rule
  let clauses : List Clause := [.nfc .always, .filters [[0, 0xa4, 0, 0, 255, 255, 0, 0]],
    .deviceAppId [], .filters [[0x80, 0xca, 0, 0, 0, 255, 0, 0]], .target [0xa0]]
  let arranged : List Clause := [.target [0xa0], .deviceAppId [],
    .filters [[0, 0xa4, 0, 0, 255, 255, 0, 0, 0x80, 0xca, 0, 0, 0, 255, 0, 0]], .nfc .always]
  let tokens := ["--nfc-always", "--apdu-filter", "00A40000FFFF0000", "--device-app-id", "empty",
    "--apdu-filter", "80ca000000ff0000", "--aid", "A0"]
  let words := ["--aid", "a0", "--device-app-id", "empty", "--apdu-filter",
    "00a40000ffff000080CA000000FF0000", "--nfc-always"]
  have htokens : Spelled clauses tokens := by
    refine ⟨[(.nfc .always, []), (.apduFilter, ["00A40000FFFF0000"]), (.deviceAppId, ["empty"]),
      (.apduFilter, ["80ca000000ff0000"]), (.aid, ["A0"])], ?_, rfl⟩
    refine .cons .nfc (.cons (.filters nofun (.cons ⟨?_, nofun, rfl⟩ .nil)) (.cons
      (.deviceAppId (.inl ⟨rfl, rfl⟩)) (.cons (.filters nofun (.cons ⟨?_, nofun, rfl⟩ .nil))
        (.cons (.aid (.inr ⟨?_, nofun⟩)) .nil))))
    all_goals exact Hex.decode?_eq_some_iff.mp (by decide +kernel)
  have hwords : Spelled arranged words := by
    refine ⟨[(.aid, ["a0"]), (.deviceAppId, ["empty"]),
      (.apduFilter, ["00a40000ffff000080CA000000FF0000"]), (.nfc .always, [])], ?_, rfl⟩
    refine .cons (.aid (.inr ⟨?_, nofun⟩)) (.cons (.deviceAppId (.inl ⟨rfl, rfl⟩)) (.cons
      (.filters nofun (.cons ⟨?_, nofun, rfl⟩ .nil)) (.cons .nfc .nil)))
    all_goals exact Hex.decode?_eq_some_iff.mp (by decide +kernel)
  -- the filters of the two options are those of the one, in the same order
  have hdescribes : Describes clauses rule := by
    refine ⟨⟨[0xa0], rfl, by decide, rfl⟩, ⟨rfl, by decide⟩, ⟨rfl, nofun⟩, ⟨rfl, rfl, nofun, ?_⟩,
      rfl, rfl, nofun⟩
    simp [ApduFilter.Valid]
  have hsolid : ∀ words : List String,
      (words.all fun word => word ≠ "" && word.toList.all fun c => !Text.isBlank c) = true →
        ∀ word ∈ words, word ≠ "" ∧ ∀ c ∈ word.toList, Text.isBlank c = false := by
    intro words hall word hmem
    simpa using List.all_eq_true.mp hall word hmem
  obtain ⟨haccepts, hsame⟩ := @read_storeRule_iff tokens (hsolid tokens (by decide +kernel))
  have hread := (haccepts _).mpr ⟨clauses, rule, htokens, hdescribes, rfl⟩
  have hagain := (hsame clauses arranged words htokens hwords (hsolid words (by decide +kernel))
    (by decide) rfl _).mpr hread
  exact ⟨hread, hagain⟩

end AccessRules.Script
