import AccessRules.Proofs.Hex
import AccessRules.Proofs.Rule.Fields
import AccessRules.Proofs.Text.Pieces
import AccessRules.Script.Options

/-!
# The words of a rule are read back

The words that describe a valid rule are read as that rule (`readRule_ruleWords`):

1. **Values** — every value that is written is a word, is no flag, and is read back
   (`isValue_of_mem_options`, `readOctets_octetsWord`, `readFilters_encode`, `readMask_encode`).

2. **Groups** — as no value is a flag, the words fall apart into the options they were made of
   (`groups_optionWords`).

3. **Stages** — each option adds its field to what has been said before it.  The filters are the one
   stage with a loop: after some of them the draft holds these and what was there before
   (`sayAll_filters`).
-/

namespace AccessRules

namespace Script

/-! ## Values -/

/-- `IsValue word` — the text is a word and is not taken for a flag. -/
structure IsValue (word : String) : Prop where
  isWord : Text.IsWord word
  noFlag : isFlag word = false

/-- A word that does not begin with a hyphen is no option. -/
theorem isFlag_eq_false {word : String} (h : word.toList.head? ≠ some '-') :
    isFlag word = false := by
  unfold isFlag
  split
  · rename_i rest hword
    rw [hword] at h
    exact absurd rfl h
  · rfl

/-- Digits are a value, unless there are none. -/
theorem isValue_encode {octets : Bytes} (h : octets ≠ []) : IsValue (Hex.encode octets) := by
  refine ⟨⟨?_, fun c hc => Hex.solid_of_mem_encode hc⟩, isFlag_eq_false ?_⟩
  · exact fun hempty => h (Hex.encode_eq_empty_iff.mp hempty)
  · intro hhead
    exact (Hex.ne_of_mem_encode (List.mem_of_head? hhead)).2.2 rfl

/-- Octets are always written as a value: there is a word for none. -/
theorem isValue_octetsWord (octets : Bytes) : IsValue (octetsWord octets) := by
  unfold octetsWord
  split
  · exact ⟨Text.isWord_of_all (by decide) (by decide), by decide⟩
  · rename_i hsome
    exact isValue_encode hsome

/-- A package name is a value, as it begins with none of the signs. -/
theorem isValue_packageName {name : String} (h : isPackageName name = true) : IsValue name := by
  refine ⟨⟨?_, fun c hc => Text.isBlank_of_visible (lt_of_mem_packageName h c hc)⟩,
    isFlag_eq_false ?_⟩
  · rintro rfl
    exact absurd h (by decide)
  · intro hhead
    unfold isPackageName at h
    split at h
    · cases h
    · rename_i first rest hname
      rw [hname] at hhead
      -- a name begins with no hyphen
      obtain rfl : first = '-' := Option.some.inj hhead
      exact absurd h (by simp)

/-! ## Options -/

/-- The octets of an identifier, none for every application. -/
def targetOctets : Target → Bytes
  | .any => []
  | .aid octets => octets

theorem targetWord_eq (target : Target) : targetWord target = octetsWord (targetOctets target) := by
  cases target <;> rfl

/-- A target is read back from its octets. -/
theorem ofOctets_targetOctets {target : Target} (h : target.Valid) :
    Target.ofOctets (targetOctets target) = target := by
  cases target with
  | any => rfl
  | aid octets => exact if_neg h.1

/-- The words of a flag and of its values. -/
def optionWords (option : Flag × List String) : List String := option.1.word :: option.2

/-- The options that say what the access to commands is. -/
def apduOptions : ApduAccess → List (Flag × List String)
  | .whole permission => [(.apdu permission, [])]
  | .filtered filters =>
    filters.map fun filter => (.apduFilter, [Hex.encode (filter.header ++ filter.mask)])

/-- The options that describe a rule. -/
def ruleOptions (rule : Rule) : List (Flag × List String) :=
  [(.aid, [octetsWord (targetOctets rule.reference.target)]),
    (.deviceAppId, [octetsWord rule.reference.deviceAppId])] ++
  (rule.reference.packageName.map fun name => (.packageName, [name])).toList ++
  (rule.access.apdu.map apduOptions).getD [] ++
  (rule.access.nfc.map fun permission => (.nfc permission, [])).toList ++
  (rule.access.permissions.map fun mask => (.permissions, [Hex.encode mask])).toList

/-- The access to commands is written as its options. -/
theorem apduWords_eq (apdu : ApduAccess) :
    apduWords apdu = (apduOptions apdu).flatMap optionWords := by
  cases apdu with
  | whole permission => rfl
  | filtered filters =>
    simp only [apduWords, apduOptions, List.flatMap_map]
    rfl

/-- A rule is described by its options one after the other. -/
theorem ruleWords_eq (rule : Rule) : ruleWords rule = (ruleOptions rule).flatMap optionWords := by
  obtain ⟨⟨target, deviceAppId, packageName⟩, ⟨apdu, nfc, permissions⟩⟩ := rule
  have hapdu : (apdu.map apduWords).getD [] =
      ((apdu.map apduOptions).getD []).flatMap optionWords := by
    cases apdu with
    | none => rfl
    | some apdu => exact apduWords_eq apdu
  simp only [ruleWords, ruleOptions, targetWord_eq, List.flatMap_append, hapdu]
  cases packageName <;> cases nfc <;> cases permissions <;> rfl

/-- The values of these options are filters in digits. -/
theorem isValue_of_mem_apduOptions {apdu : ApduAccess} (hvalid : apdu.Valid)
    {option : Flag × List String} (hoption : option ∈ apduOptions apdu) {value : String}
    (hvalue : value ∈ option.2) : IsValue value := by
  cases apdu with
  | whole permission =>
    obtain rfl := List.mem_singleton.mp hoption
    cases hvalue
  | filtered filters =>
    obtain ⟨filter, hmem, rfl⟩ := List.mem_map.mp hoption
    obtain rfl := List.mem_singleton.mp hvalue
    exact isValue_encode (hvalid.2 filter hmem).octets_ne_nil

/-- The values that are written for a valid rule are values. -/
theorem isValue_of_mem_options {rule : Rule} (hrule : rule.Valid) {option : Flag × List String}
    (hoption : option ∈ ruleOptions rule) {value : String} (hvalue : value ∈ option.2) :
    IsValue value := by
  simp only [ruleOptions, List.mem_append, List.mem_cons, List.not_mem_nil, or_false,
    Option.mem_toList, Option.map_eq_some_iff] at hoption
  -- one case for each stage; only package names are not digits or the word for none
  rcases hoption with (((htwo | hname) | hapdu) | hnfc) | hmask
  · rcases htwo with rfl | rfl
    · exact List.mem_singleton.mp hvalue ▸ isValue_octetsWord _
    · exact List.mem_singleton.mp hvalue ▸ isValue_octetsWord _
  · obtain ⟨name, hname, rfl⟩ := hname
    exact List.mem_singleton.mp hvalue ▸
      isValue_packageName (hrule.reference.packageName name hname)
  · cases hcase : rule.access.apdu with
    | none =>
      rw [hcase] at hapdu
      cases hapdu
    | some apdu =>
      rw [hcase] at hapdu
      exact isValue_of_mem_apduOptions (hrule.access.apdu apdu hcase) hapdu hvalue
  · obtain ⟨permission, -, rfl⟩ := hnfc
    cases hvalue
  · obtain ⟨mask, hmask, rfl⟩ := hmask
    obtain rfl := List.mem_singleton.mp hvalue
    refine isValue_encode fun hnil => ?_
    have hsize := hrule.access.permissions mask hmask
    rw [hnil] at hsize
    cases hsize

/-- The name of an option is a word. -/
theorem isWord_flag (flag : Flag) : Text.IsWord flag.word := by
  -- there are few options, so all of them are looked at
  have hall : ∀ flag ∈ Flag.all, flag.word ≠ "" ∧
      (flag.word.toList.all fun c => !Text.isBlank c) = true := by decide +kernel
  have hflag := hall flag (List.mem_of_find?_eq_some (Flag.ofWord?_word flag))
  exact Text.isWord_of_all hflag.1 hflag.2

/-- A valid rule is described in words without blanks. -/
theorem isWord_of_mem_ruleWords {rule : Rule} (hrule : rule.Valid) {word : String}
    (hword : word ∈ ruleWords rule) : Text.IsWord word := by
  rw [ruleWords_eq, List.mem_flatMap] at hword
  obtain ⟨option, hoption, hmem⟩ := hword
  rcases List.mem_cons.mp hmem with rfl | hvalue
  · exact isWord_flag option.1
  · exact (isValue_of_mem_options hrule hoption hvalue).isWord

/-! ## Groups -/

/-- The name of an option is taken for one. -/
theorem isFlag_word (flag : Flag) : isFlag flag.word = true := by
  have hall : ∀ flag ∈ Flag.all, isFlag flag.word = true := by decide
  exact hall flag (List.mem_of_find?_eq_some (Flag.ofWord?_word flag))

/-- An option starts a group with the values behind it. -/
theorem groups_cons_flag {word : String} (h : isFlag word = true) (words : List String) :
    groups (word :: words) = ([], ⟨word, (groups words).1⟩ :: (groups words).2) := by
  rw [groups, List.foldr_cons, if_pos h]
  rfl

/-- Words in front that are no flags belong to no group. -/
theorem groups_append {values : List String} (h : ∀ value ∈ values, isFlag value = false)
    (words : List String) :
    groups (values ++ words) = (values ++ (groups words).1, (groups words).2) := by
  induction values with
  | nil => rfl
  | cons value values ih =>
    have hvalue : ¬ isFlag value = true := by
      rw [h value List.mem_cons_self]
      exact Bool.false_ne_true
    have hrest := ih fun other hmem => h other (List.mem_cons_of_mem _ hmem)
    rw [groups] at hrest
    rw [List.cons_append, groups, List.foldr_cons, if_neg hvalue, hrest]
    rfl

/-- The group of an option. -/
def optionGroup (option : Flag × List String) : Group := ⟨option.1.word, option.2⟩

/-- The words of options fall apart into these options. -/
theorem groups_optionWords {options : List (Flag × List String)}
    (h : ∀ option ∈ options, ∀ value ∈ option.2, isFlag value = false) :
    groups (options.flatMap optionWords) = ([], options.map optionGroup) := by
  induction options with
  | nil => rfl
  | cons option options ih =>
    have hrest := ih fun other hmem => h other (List.mem_cons_of_mem _ hmem)
    rw [List.flatMap_cons, optionWords, List.cons_append, groups_cons_flag (isFlag_word option.1),
      groups_append (h option List.mem_cons_self), hrest, List.append_nil]
    rfl

/-! ## Values read back -/

theorem octetsWord_of_ne_nil {octets : Bytes} (h : octets ≠ []) :
    octetsWord octets = Hex.encode octets := if_neg h

/-- The word for no octets is no digits, so no octets are taken for none. -/
theorem encode_ne_emptyWord (octets : Bytes) : Hex.encode octets ≠ emptyWord := by
  intro heq
  -- digits are read back, but this word is not read as digits
  have hread := Hex.decode?_encode octets
  rw [heq, show Hex.decode? emptyWord = none by decide] at hread
  cases hread

/-- Octets are read back from their word. -/
theorem readOctets_octetsWord (name : String) (octets : Bytes) :
    readOctets name (octetsWord octets) = .ok octets := by
  cases octets with
  | nil => rfl
  | cons octet octets =>
    rw [octetsWord_of_ne_nil (List.cons_ne_nil _ _), readOctets, if_neg (encode_ne_emptyWord _),
      Hex.decode?_encode]

/-- A filter is read back from its digits. -/
theorem readFilters_encode (name : String) {filter : ApduFilter} (h : filter.Valid) :
    readFilters name (Hex.encode (filter.header ++ filter.mask)) = .ok [filter] := by
  have hread := readOctets_octetsWord name (filter.header ++ filter.mask)
  rw [octetsWord_of_ne_nil h.octets_ne_nil] at hread
  refine bind_eq_ok_iff.mpr ⟨_, hread, ?_⟩
  simp only [splitFilters?_single h]

/-- A mask is read back from its digits. -/
theorem readMask_encode (name : String) {mask : Bytes} (h : mask.length = permissionsSize) :
    readMask name (Hex.encode mask) = .ok mask := by
  rw [readMask, Hex.decode?_encode]
  exact if_pos h

/-! ## Stages -/

/-- What a draft says with some more options. -/
def Draft.sayAll (draft : Draft) (options : List (Flag × List String)) : Except Flaw Draft :=
  options.foldlM (fun draft option => draft.say option.1 option.2) draft

/-- Groups of words are said as the options that they name. -/
theorem foldlM_sayGroup (draft : Draft) (options : List (Flag × List String)) :
    (options.map optionGroup).foldlM Draft.sayGroup draft = draft.sayAll options := by
  have hsay : ∀ (draft : Draft) (option : Flag × List String),
      draft.sayGroup (optionGroup option) = draft.say option.1 option.2 := by
    intro draft option
    simp only [Draft.sayGroup, optionGroup, Flag.ofWord?_word]
  rw [Draft.sayAll, List.foldlM_map]
  simp only [hsay]

theorem Draft.sayAll_cons (draft : Draft) (option : Flag × List String)
    (options : List (Flag × List String)) :
    draft.sayAll (option :: options) =
      (draft.say option.1 option.2 >>= fun said => said.sayAll options) := List.foldlM_cons ..

/-- More options are said to the draft that the first ones leave. -/
theorem Draft.sayAll_append {draft said : Draft} {options : List (Flag × List String)}
    (h : draft.sayAll options = .ok said) (more : List (Flag × List String)) :
    draft.sayAll (options ++ more) = said.sayAll more := by
  rw [Draft.sayAll, List.foldlM_append, show options.foldlM _ draft = _ from h]
  rfl

/-- Both halves of who a rule is about are said first. -/
theorem sayAll_reference (target deviceAppId : Bytes) :
    Draft.sayAll {} [(.aid, [octetsWord target]), (.deviceAppId, [octetsWord deviceAppId])] =
      .ok { aid := some target, deviceAppId := some deviceAppId } := by
  simp only [Draft.sayAll_cons, Draft.say, once, oneValue, readOctets_octetsWord, noMore]
  rfl

/-- A package name is said to a draft without one. -/
theorem sayAll_packageName {draft : Draft} (h : draft.packageName = none)
    (packageName : Option String) :
    draft.sayAll (packageName.map fun name => (.packageName, [name])).toList =
      .ok { draft with packageName := packageName } := by
  cases packageName with
  | none =>
    obtain ⟨aid, deviceAppId, said, access⟩ := draft
    obtain rfl : said = none := h
    rfl
  | some name =>
    simp only [Option.map_some, Option.toList_some, Draft.sayAll_cons, Draft.say, once, h, oneValue,
      noMore]
    rfl

/-- The draft with another access to commands. -/
def Draft.withApdu (draft : Draft) (apdu : Option ApduAccess) : Draft :=
  { draft with access := { draft.access with apdu := apdu } }

/-- The filters said so far, unless access to commands has been stated as a whole. -/
def saidFilters : Option ApduAccess → Option (List ApduFilter)
  | none => some []
  | some (.filtered filters) => some filters
  | some (.whole _) => none

/-- A filter is said behind those that were said before. -/
theorem say_filter {draft : Draft} {earlier : List ApduFilter}
    (h : saidFilters draft.access.apdu = some earlier) {filter : ApduFilter}
    (hvalid : filter.Valid) :
    draft.say .apduFilter [Hex.encode (filter.header ++ filter.mask)] =
      .ok (draft.withApdu (some (.filtered (earlier ++ [filter])))) := by
  have hread := readFilters_encode Flag.apduFilter.word hvalid
  cases hsaid : draft.access.apdu with
  | none =>
    rw [hsaid] at h
    obtain rfl : [] = earlier := Option.some.inj h
    simp only [Draft.say, hsaid, readAllFilters, hread]
    rfl
  | some apdu =>
    rw [hsaid] at h
    cases apdu with
    | whole permission => cases h
    | filtered filters =>
      obtain rfl : filters = earlier := Option.some.inj h
      simp only [Draft.say, hsaid, readAllFilters, hread]
      rfl

/-- Filters are put behind those that have been said. -/
theorem sayAll_filters {draft : Draft} {earlier filters : List ApduFilter}
    (hdraft : saidFilters draft.access.apdu = some earlier) (hsome : filters ≠ [])
    (hvalid : ∀ filter ∈ filters, filter.Valid) :
    draft.sayAll (apduOptions (.filtered filters)) =
      .ok (draft.withApdu (some (.filtered (earlier ++ filters)))) := by
  induction filters generalizing draft earlier with
  | nil => exact absurd rfl hsome
  | cons filter filters ih =>
    obtain ⟨hfilter, hrest⟩ := List.forall_mem_cons.mp hvalid
    rw [apduOptions, List.map_cons, Draft.sayAll_cons, say_filter hdraft hfilter,
      List.append_cons earlier filter filters]
    -- the last filter leaves nothing to be said
    cases filters with
    | nil =>
      rw [List.append_nil]
      rfl
    | cons next filters =>
      exact @ih (draft.withApdu (some (.filtered (earlier ++ [filter])))) _ rfl
        (List.cons_ne_nil _ _) hrest

/-- The access to commands is said to a draft without one. -/
theorem sayAll_apdu {draft : Draft} (hdraft : draft.access.apdu = none) {apdu : Option ApduAccess}
    (hvalid : ∀ access ∈ apdu, access.Valid) :
    draft.sayAll ((apdu.map apduOptions).getD []) = .ok (draft.withApdu apdu) := by
  cases apdu with
  | none =>
    obtain ⟨aid, deviceAppId, packageName, ⟨said, nfc, permissions⟩⟩ := draft
    obtain rfl : said = none := hdraft
    rfl
  | some apdu =>
    cases apdu with
    | whole permission =>
      simp only [Option.map_some, Option.getD_some, apduOptions, Draft.sayAll_cons, Draft.say,
        hdraft, noMore]
      rfl
    | filtered filters =>
      obtain ⟨hsome, hfilters⟩ := hvalid _ rfl
      have hnone : saidFilters draft.access.apdu = some [] := by
        rw [hdraft]
        rfl
      exact sayAll_filters hnone hsome hfilters

/-- The access to events is said to a draft without one. -/
theorem sayAll_nfc {draft : Draft} (h : draft.access.nfc = none) (nfc : Option Permission) :
    draft.sayAll (nfc.map fun permission => (.nfc permission, [])).toList =
      .ok { draft with access := { draft.access with nfc := nfc } } := by
  cases nfc with
  | none =>
    obtain ⟨aid, deviceAppId, packageName, ⟨apdu, said, permissions⟩⟩ := draft
    obtain rfl : said = none := h
    rfl
  | some permission =>
    simp only [Option.map_some, Option.toList_some, Draft.sayAll_cons, Draft.say, h, noMore]
    rfl

/-- Carrier privileges are said to a draft without them. -/
theorem sayAll_permissions {draft : Draft} (hdraft : draft.access.permissions = none)
    {permissions : Option Bytes} (hsize : ∀ mask ∈ permissions, mask.length = permissionsSize) :
    draft.sayAll (permissions.map fun mask => (.permissions, [Hex.encode mask])).toList =
      .ok { draft with access := { draft.access with permissions := permissions } } := by
  cases permissions with
  | none =>
    obtain ⟨aid, deviceAppId, packageName, ⟨apdu, nfc, said⟩⟩ := draft
    obtain rfl : said = none := hdraft
    rfl
  | some mask =>
    simp only [Option.map_some, Option.toList_some, Draft.sayAll_cons, Draft.say, once, hdraft,
      oneValue, readMask_encode _ (hsize mask rfl), noMore]
    rfl

/-- What the words of a rule say. -/
def ruleDraft (rule : Rule) : Draft :=
  ⟨some (targetOctets rule.reference.target), some rule.reference.deviceAppId,
    rule.reference.packageName, rule.access⟩

/-- The options of a rule are said to an empty draft one field after the other. -/
theorem sayAll_ruleOptions {rule : Rule} (hrule : rule.Valid) :
    Draft.sayAll {} (ruleOptions rule) = .ok (ruleDraft rule) := by
  -- each stage finds its field unsaid, since the stages before it say others
  rw [ruleOptions, List.append_assoc, List.append_assoc, List.append_assoc,
    Draft.sayAll_append (sayAll_reference _ _), Draft.sayAll_append (sayAll_packageName rfl _),
    Draft.sayAll_append (sayAll_apdu rfl hrule.access.apdu),
    Draft.sayAll_append (sayAll_nfc rfl _), sayAll_permissions rfl hrule.access.permissions]
  rfl

/-- The draft in which all fields of a rule are said makes this rule. -/
theorem rule_ruleDraft {rule : Rule} (hrule : rule.Valid) :
    (ruleDraft rule).rule = .ok rule := by
  have hcreate : Rule.create ⟨.identifier (.given (targetOctets rule.reference.target)),
      .given rule.reference.deviceAppId, rule.reference.packageName, rule.access⟩ = .ok rule := by
    refine Rule.create_eq_ok_iff.mpr ⟨hrule, ?_, rfl, rfl, rfl⟩
    show Except.ok (Target.ofOctets (targetOctets rule.reference.target)) = _
    rw [ofOctets_targetOctets hrule.reference.target]
  simp only [Draft.rule, ruleDraft, required]
  exact mapError_eq_ok_iff.mpr hcreate

/-- **The words that describe a valid rule are read as this rule.** -/
theorem readRule_ruleWords {rule : Rule} (hrule : rule.Valid) :
    readRule (ruleWords rule) = .ok rule := by
  have hgroups : groups (ruleWords rule) = ([], (ruleOptions rule).map optionGroup) := by
    rw [ruleWords_eq]
    exact groups_optionWords fun option hoption value hvalue =>
      (isValue_of_mem_options hrule hoption hvalue).noFlag
  simp only [readRule, hgroups, noMore, foldlM_sayGroup, sayAll_ruleOptions hrule]
  exact rule_ruleDraft hrule

/-- A rule that is read from words is valid. -/
theorem valid_of_readRule {words : List String} {rule : Rule} (h : readRule words = .ok rule) :
    rule.Valid := by
  simp only [readRule, Draft.rule, bind_eq_ok_iff, mapError_eq_ok_iff] at h
  obtain ⟨_, _, _, _, _, _, _, _, hcreate⟩ := h
  exact (Rule.create_eq_ok_iff.mp hcreate).1

end Script

end AccessRules
