import AccessRules.Proofs.Script.Options
import Mathlib.Data.List.Forall2

/-!
# What options say

Options are read one by one, and each of them is a clause about the rule.

1. **Spelling** — `Clause.Spelled clause option` says which flag and which values are written for a
   clause, in digits of either case.  It mentions no reader.

2. **Values** — every reader of values accepts exactly what is spelled (`readOctets_eq_ok_iff`,
   `readMask_eq_ok_iff`, `readAllFilters_eq_ok_iff`).

3. **One option** — it is accepted exactly if it spells a clause that the draft can take
   (`say_eq_ok_iff`): one about something that has not been said yet.

4. **All options** — `Says clauses draft` says that the draft is what the clauses say, whatever
   their order.  It holds of one draft at most (`Says.eq`), taking a clause preserves it
   (`Says.append`), and a draft can take every clause that is followed by clauses that some draft
   says (`Says.exists_takes`).  By induction on the options, these make a draft exactly if they
   spell clauses that say it (`sayAll_eq_ok_iff`).
-/

namespace AccessRules.Script

/-! ## Clauses -/

/-- What one option says of a rule. -/
inductive Clause
  | target (octets : Bytes)
  | deviceAppId (octets : Bytes)
  | packageName (name : String)
  | apdu (permission : Permission)
  /-- Filters in a row, in one or more values. -/
  | filters (values : List Bytes)
  | nfc (permission : Permission)
  | permissions (mask : Bytes)
  deriving DecidableEq, Repr

namespace Clause

/-- The identifier that a clause states. -/
def target? : Clause → Option Bytes
  | target octets => some octets
  | _ => none

/-- The device application that a clause states. -/
def deviceAppId? : Clause → Option Bytes
  | deviceAppId octets => some octets
  | _ => none

/-- The package name that a clause states. -/
def packageName? : Clause → Option String
  | packageName name => some name
  | _ => none

/-- The permission for all commands that a clause states. -/
def apdu? : Clause → Option Permission
  | apdu permission => some permission
  | _ => none

/-- The octets of the filters that a clause states, none in any other clause. -/
def filterOctets : Clause → Bytes
  | filters values => values.flatten
  | _ => []

/-- The permission for contactless events that a clause states. -/
def nfc? : Clause → Option Permission
  | nfc permission => some permission
  | _ => none

/-- The mask that a clause states. -/
def permissions? : Clause → Option Bytes
  | permissions mask => some mask
  | _ => none

end Clause

/-- `Spells word octets` — the word is `empty` and stands for no octets, or it is some octets in
    digits of either case. -/
def Spells (word : String) (octets : Bytes) : Prop :=
  word = "empty" ∧ octets = [] ∨ word.toLower = Hex.encode octets ∧ octets ≠ []

/-- `SpellsFilters word octets` — the word is a positive multiple of eight octets in digits. -/
structure SpellsFilters (word : String) (octets : Bytes) : Prop where
  digits : word.toLower = Hex.encode octets
  nonempty : octets ≠ []
  whole : octets.length % 8 = 0

/-- `clause.Spelled (flag, values)` — the option is a way to write the clause. -/
inductive Clause.Spelled : Clause → Flag × List String → Prop
  | aid {word octets} (h : Spells word octets) : Spelled (.target octets) (.aid, [word])
  | anyAid : Spelled (.target []) (.anyAid, [])
  | deviceAppId {word octets} (h : Spells word octets) :
      Spelled (.deviceAppId octets) (.deviceAppId, [word])
  | packageName {name} (h : isFlag name = false) :
      Spelled (.packageName name) (.packageName, [name])
  | apdu {permission} : Spelled (.apdu permission) (.apdu permission, [])
  | filters {words values} (hsome : words ≠ []) (h : List.Forall₂ SpellsFilters words values) :
      Spelled (.filters values) (.apduFilter, words)
  | nfc {permission} : Spelled (.nfc permission) (.nfc permission, [])
  | permissions {word mask} (hdigits : word.toLower = Hex.encode mask)
      (hsize : mask.length = 8) : Spelled (.permissions mask) (.permissions, [word])

/-! ## Values -/

theorem once_eq_ok_iff {α : Type} {name : String} {said : Option α} {u : Unit} :
    once name said = .ok u ↔ said = none := by
  cases said with
  | none => exact ⟨fun _ => rfl, fun _ => rfl⟩
  | some a => exact ⟨nofun, nofun⟩

theorem noMore_eq_ok_iff {words : List String} {u : Unit} : noMore words = .ok u ↔ words = [] := by
  cases words with
  | nil => exact ⟨fun _ => rfl, fun _ => rfl⟩
  | cons word words => exact ⟨nofun, nofun⟩

/-- A flag with one value has no other. -/
theorem oneValue_eq_ok_iff {α : Type} {name : String} {read : String → Except Flaw α}
    {words : List String} {a : α} :
    oneValue name read words = .ok a ↔ ∃ word, words = [word] ∧ read word = .ok a := by
  cases words with
  | nil =>
    constructor
    · intro h
      cases h
    · rintro ⟨_, h, -⟩
      cases h
  | cons word more =>
    simp only [oneValue, bind_eq_ok_iff, noMore_eq_ok_iff, Except.ok.injEq]
    constructor
    · rintro ⟨read, hread, _, rfl, rfl⟩
      exact ⟨word, rfl, hread⟩
    · rintro ⟨_, hwords, hread⟩
      obtain ⟨rfl, rfl⟩ := List.cons.inj hwords
      exact ⟨a, hread, (), rfl, rfl⟩

/-- Octets are read from a word that spells them. -/
theorem readOctets_eq_ok_iff {name word : String} {octets : Bytes} :
    readOctets name word = .ok octets ↔ Spells word octets := by
  unfold readOctets Spells
  by_cases hempty : word = emptyWord
  · rw [if_pos hempty, Except.ok.injEq]
    -- the word for none is not made of digits
    have hnot : word.toLower ≠ Hex.encode octets := by
      intro hdigits
      have hread := Hex.decode?_eq_some_iff.mpr hdigits
      rw [hempty, show Hex.decode? emptyWord = none by decide] at hread
      cases hread
    constructor
    · rintro rfl
      exact .inl ⟨hempty, rfl⟩
    · rintro (⟨-, rfl⟩ | ⟨hdigits, -⟩)
      · rfl
      · exact absurd hdigits hnot
  · rw [if_neg hempty, ← Hex.decode?_eq_some_iff]
    have hnot : ¬ (word = "empty" ∧ octets = []) := fun h => hempty h.1
    rw [or_iff_right hnot]
    cases hread : Hex.decode? word with
    | none => exact ⟨nofun, nofun⟩
    | some found =>
      -- no digits at all are no octets, but they are not the word for none either
      cases found with
      | nil =>
        constructor
        · intro h
          cases h
        · rintro ⟨hsome, hne⟩
          exact absurd (Option.some.inj hsome).symm hne
      | cons octet rest =>
        constructor
        · intro h
          obtain rfl := Except.ok.inj h
          exact ⟨rfl, List.cons_ne_nil _ _⟩
        · rintro ⟨hsome, -⟩
          obtain rfl := Option.some.inj hsome
          rfl

/-- A mask is read from its digits in either case, if there are enough of them. -/
theorem readMask_eq_ok_iff {name word : String} {mask : Bytes} :
    readMask name word = .ok mask ↔ word.toLower = Hex.encode mask ∧ mask.length = 8 := by
  rw [← Hex.decode?_eq_some_iff, readMask]
  cases hread : Hex.decode? word with
  | none =>
    constructor
    · intro h
      cases h
    · rintro ⟨hnone, -⟩
      cases hnone
  | some octets =>
    dsimp only
    split
    · rename_i hsize
      constructor
      · intro h
        obtain rfl := Except.ok.inj h
        exact ⟨rfl, hsize⟩
      · rintro ⟨hsome, -⟩
        rw [Option.some.inj hsome]
    · rename_i hsize
      constructor
      · intro h
        cases h
      · rintro ⟨hsome, hmask⟩
        rw [← Option.some.inj hsome] at hmask
        exact absurd hmask hsize

/-! ### Filters -/

/-- Octets are filters exactly if they are a positive multiple of eight. -/
theorem exists_splitFilters_iff {octets : Bytes} :
    (∃ filters, splitFilters? octets = some filters) ↔ octets ≠ [] ∧ octets.length % 8 = 0 := by
  have hare : areFilters octets = true ↔ octets ≠ [] ∧ octets.length % 8 = 0 := by
    rw [areFilters, Bool.and_eq_true, decide_eq_true_eq, decide_eq_true_eq, ne_eq,
      List.length_eq_zero_iff]
    rfl
  rw [splitFilters?, ← hare]
  split
  · rename_i h
    exact ⟨fun _ => h, fun _ => ⟨_, rfl⟩⟩
  · rename_i h
    refine ⟨?_, fun hare => absurd hare h⟩
    rintro ⟨_, hsome⟩
    cases hsome

/-- Octets that are cut into filters can be put together. -/
theorem splitFilters?_append {octets others : Bytes} {filters more : List ApduFilter}
    (h : splitFilters? octets = some filters) (hmore : splitFilters? others = some more) :
    splitFilters? (octets ++ others) = some (filters ++ more) := by
  obtain ⟨rfl, hsome, hvalid⟩ := splitFilters?_eq_some_iff.mp h
  obtain ⟨rfl, -, hothers⟩ := splitFilters?_eq_some_iff.mp hmore
  refine splitFilters?_eq_some_iff.mpr ⟨?_, List.append_ne_nil_of_left_ne_nil hsome _, ?_⟩
  · rw [joinFilters, joinFilters, joinFilters, List.flatMap_append]
  · intro filter hmem
    rcases List.mem_append.mp hmem with hmem | hmem
    · exact hvalid filter hmem
    · exact hothers filter hmem

/-- One value is read as the filters that it spells. -/
theorem readFilters_eq_ok_iff {name word : String} {filters : List ApduFilter} :
    readFilters name word = .ok filters ↔
      ∃ octets, SpellsFilters word octets ∧ splitFilters? octets = some filters := by
  simp only [readFilters, bind_eq_ok_iff, readOctets_eq_ok_iff]
  constructor
  · rintro ⟨octets, hspells, h⟩
    split at h
    · rename_i found hsplit
      obtain rfl := Except.ok.inj h
      obtain ⟨hsome, hwhole⟩ := exists_splitFilters_iff.mp ⟨found, hsplit⟩
      rcases hspells with ⟨-, hnone⟩ | ⟨hdigits, -⟩
      · exact absurd hnone hsome
      · exact ⟨octets, ⟨hdigits, hsome, hwhole⟩, hsplit⟩
    · cases h
  · rintro ⟨octets, hspells, hsplit⟩
    refine ⟨octets, .inr ⟨hspells.digits, hspells.nonempty⟩, ?_⟩
    simp only [hsplit]

/-- Values that are filters each are filters in a row. -/
theorem exists_splitFilters_flatten {words : List String} {values : List Bytes}
    (hsome : words ≠ []) (h : List.Forall₂ SpellsFilters words values) :
    ∃ filters, splitFilters? values.flatten = some filters := by
  induction h with
  | nil => exact absurd rfl hsome
  | @cons word octets words values hfirst hrest ih =>
    obtain ⟨first, hsplit⟩ := exists_splitFilters_iff.mpr ⟨hfirst.nonempty, hfirst.whole⟩
    rw [List.flatten_cons]
    by_cases hmore : words = []
    · subst hmore
      cases hrest
      exact ⟨first, by rw [List.flatten_nil, List.append_nil, hsplit]⟩
    · obtain ⟨rest, hrest⟩ := ih hmore
      exact ⟨first ++ rest, splitFilters?_append hsplit hrest⟩

/-- It does not matter how filters in a row are spread over values. -/
theorem readAllFilters_eq_ok_iff {name : String} {words : List String}
    {filters : List ApduFilter} :
    readAllFilters name words = .ok filters ↔
      words ≠ [] ∧ ∃ values, List.Forall₂ SpellsFilters words values ∧
        splitFilters? values.flatten = some filters := by
  fun_induction readAllFilters name words generalizing filters with
  | case1 => exact ⟨nofun, fun h => absurd rfl h.1⟩
  | case2 word =>
    rw [readFilters_eq_ok_iff]
    constructor
    · rintro ⟨octets, hspells, hsplit⟩
      refine ⟨List.cons_ne_nil _ _, [octets], .cons hspells .nil, ?_⟩
      rw [List.flatten_cons, List.flatten_nil, List.append_nil, hsplit]
    · rintro ⟨-, values, hspells, hsplit⟩
      cases hspells with
      | @cons _ octets _ _ hword hnil =>
        cases hnil
        rw [List.flatten_cons, List.flatten_nil, List.append_nil] at hsplit
        exact ⟨octets, hword, hsplit⟩
  | case3 word more hmany ih =>
    have hmore : more ≠ [] := hmany
    simp only [bind_eq_ok_iff, Except.ok.injEq, readFilters_eq_ok_iff, ih]
    constructor
    · rintro ⟨first, ⟨octets, hword, hfirst⟩, rest, ⟨-, values, hspells, hrest⟩, rfl⟩
      exact ⟨List.cons_ne_nil _ _, octets :: values, .cons hword hspells,
        splitFilters?_append hfirst hrest⟩
    · rintro ⟨-, values, hspells, hsplit⟩
      cases hspells with
      | @cons _ octets _ values hword hspells =>
        obtain ⟨first, hfirst⟩ := exists_splitFilters_iff.mpr ⟨hword.nonempty, hword.whole⟩
        obtain ⟨rest, hrest⟩ := exists_splitFilters_flatten hmore hspells
        rw [List.flatten_cons, splitFilters?_append hfirst hrest] at hsplit
        exact ⟨first, ⟨octets, hword, hfirst⟩, rest, ⟨hmore, values, hspells, hrest⟩,
          Option.some.inj hsplit⟩

/-! ## What clauses say -/

/-- `ApduSaid wholes octets apdu` — the access to commands that is said by permissions for all
    commands and by the octets of filters: nothing, one permission and no filter, or filters and no
    permission. -/
def ApduSaid (wholes : List Permission) (octets : Bytes) : Option ApduAccess → Prop
  | none => wholes = [] ∧ octets = []
  | some (.whole permission) => wholes = [permission] ∧ octets = []
  | some (.filtered filters) =>
    wholes = [] ∧ octets = joinFilters filters ∧ (ApduAccess.filtered filters).Valid

/-- `Says clauses draft` — the draft is what the clauses say, in whatever order.  Everything is said
    once at most, except that filters are said one after the other. -/
structure Says (clauses : List Clause) (draft : Draft) : Prop where
  target : clauses.filterMap Clause.target? = draft.aid.toList
  deviceAppId : clauses.filterMap Clause.deviceAppId? = draft.deviceAppId.toList
  packageName : clauses.filterMap Clause.packageName? = draft.packageName.toList
  apdu : ApduSaid (clauses.filterMap Clause.apdu?) (clauses.flatMap Clause.filterOctets)
    draft.access.apdu
  nfc : clauses.filterMap Clause.nfc? = draft.access.nfc.toList
  permissions : clauses.filterMap Clause.permissions? = draft.access.permissions.toList

section ApduSaid

variable {wholes : List Permission} {octets : Bytes} {apdu : Option ApduAccess}

/-- Clauses about commands say one access at most. -/
theorem ApduSaid.eq {other : Option ApduAccess} (h : ApduSaid wholes octets apdu)
    (hother : ApduSaid wholes octets other) : apdu = other := by
  -- filters that are said have octets, so they are not taken for no filters
  have hfilters : ∀ filters, (ApduAccess.filtered filters).Valid → joinFilters filters ≠ [] := by
    intro filters hvalid hnil
    obtain ⟨hsome, -⟩ := exists_splitFilters_iff.mp
      ⟨filters, splitFilters?_eq_some_iff.mpr ⟨rfl, hvalid⟩⟩
    exact hsome hnil
  rcases apdu with _ | permission | filters <;> rcases other with _ | permission' | filters'
  · rfl
  · cases h.1.symm.trans hother.1
  · exact absurd (hother.2.1.symm.trans h.2) (hfilters _ hother.2.2)
  · cases h.1.symm.trans hother.1
  · cases h.1.symm.trans hother.1
    rfl
  · cases h.1.symm.trans hother.1
  · exact absurd (h.2.1.symm.trans hother.2) (hfilters _ h.2.2)
  · cases h.1.symm.trans hother.1
  · have hsplit := splitFilters?_eq_some_iff.mpr h.2
    rw [splitFilters?_eq_some_iff.mpr hother.2] at hsplit
    rw [Option.some.inj hsplit]

/-- Nothing else is said beside a permission for all commands. -/
theorem ApduSaid.eq_nil {permission : Permission} {more : List Permission}
    (h : ApduSaid (wholes ++ permission :: more) octets apdu) : wholes = [] ∧ octets = [] := by
  have hsome : wholes ++ permission :: more ≠ [] :=
    List.append_ne_nil_of_right_ne_nil _ (List.cons_ne_nil _ _)
  rcases apdu with _ | other | filters
  · exact absurd h.1 hsome
  · obtain ⟨hwholes, hoctets⟩ := h
    have hlength := congrArg List.length hwholes
    rw [List.length_append, List.length_cons, List.length_singleton] at hlength
    exact ⟨List.length_eq_zero_iff.mp (by omega), hoctets⟩
  · exact absurd h.1 hsome

/-- There is no permission for all commands beside filters. -/
theorem ApduSaid.wholes_eq_nil (h : ApduSaid wholes octets apdu) (hsome : octets ≠ []) :
    wholes = [] := by
  rcases apdu with _ | permission | filters
  · exact h.1
  · exact absurd h.2 hsome
  · exact h.1

/-- Without a clause for all commands, there may have been filters only. -/
theorem ApduSaid.exists_filters (h : ApduSaid [] octets apdu) :
    ∃ earlier, saidFilters apdu = some earlier := by
  rcases apdu with _ | permission | filters
  · exact ⟨[], rfl⟩
  · cases h.1
  · exact ⟨filters, rfl⟩

/-- More octets are more filters. -/
theorem ApduSaid.append {others : Bytes} {earlier filters : List ApduFilter}
    (h : ApduSaid wholes octets apdu) (hearlier : saidFilters apdu = some earlier)
    (hsplit : splitFilters? others = some filters) :
    ApduSaid wholes (octets ++ others) (some (.filtered (earlier ++ filters))) := by
  rcases apdu with _ | permission | said
  · obtain ⟨hwholes, rfl⟩ := h
    obtain rfl : [] = earlier := Option.some.inj hearlier
    exact ⟨hwholes, splitFilters?_eq_some_iff.mp hsplit⟩
  · cases hearlier
  · obtain ⟨hwholes, hsaid⟩ := h
    obtain rfl : said = earlier := Option.some.inj hearlier
    have hall := splitFilters?_append (splitFilters?_eq_some_iff.mpr hsaid) hsplit
    exact ⟨hwholes, splitFilters?_eq_some_iff.mp hall⟩

end ApduSaid

section Once

variable {α : Type} {said other : Option α}

/-- What is said at most once is known from the list of what is said. -/
theorem eq_of_toList_eq (h : said.toList = other.toList) : said = other := by
  have hhead := congrArg List.head? h
  rwa [Option.head?_toList, Option.head?_toList] at hhead

/-- What is said again has not been said before. -/
theorem eq_none_of_toList_append {a : α} {more : List α}
    (h : said.toList ++ a :: more = other.toList) : said = none := by
  have hlength := congrArg List.length h
  have hle := @Option.length_toList_le α other
  rw [List.length_append, List.length_cons] at hlength
  exact Option.toList_eq_nil_iff.mp (List.length_eq_zero_iff.mp (by omega))

end Once

/-- Clauses say one draft at most. -/
theorem Says.eq {clauses : List Clause} {draft other : Draft} (h : Says clauses draft)
    (hother : Says clauses other) : draft = other := by
  obtain ⟨aid, deviceAppId, packageName, ⟨apdu, nfc, permissions⟩⟩ := draft
  obtain ⟨aid', deviceAppId', packageName', ⟨apdu', nfc', permissions'⟩⟩ := other
  obtain rfl : aid = aid' := eq_of_toList_eq (h.target.symm.trans hother.target)
  obtain rfl : deviceAppId = deviceAppId' :=
    eq_of_toList_eq (h.deviceAppId.symm.trans hother.deviceAppId)
  obtain rfl : packageName = packageName' :=
    eq_of_toList_eq (h.packageName.symm.trans hother.packageName)
  obtain rfl : apdu = apdu' := h.apdu.eq hother.apdu
  obtain rfl : nfc = nfc' := eq_of_toList_eq (h.nfc.symm.trans hother.nfc)
  obtain rfl : permissions = permissions' :=
    eq_of_toList_eq (h.permissions.symm.trans hother.permissions)
  rfl

/-! ## One option -/

/-- `draft.Takes clause next` — the clause is about something that the draft does not say yet, or
    adds filters to those that it says, and `next` says it as well. -/
def Draft.Takes (draft : Draft) : Clause → Draft → Prop
  | .target octets, next => draft.aid = none ∧ next = { draft with aid := some octets }
  | .deviceAppId octets, next =>
    draft.deviceAppId = none ∧ next = { draft with deviceAppId := some octets }
  | .packageName name, next =>
    draft.packageName = none ∧ next = { draft with packageName := some name }
  | .apdu permission, next =>
    draft.access.apdu = none ∧ next = draft.withApdu (some (.whole permission))
  | .filters values, next => ∃ earlier filters, saidFilters draft.access.apdu = some earlier ∧
    splitFilters? values.flatten = some filters ∧
      next = draft.withApdu (some (.filtered (earlier ++ filters)))
  | .nfc permission, next => draft.access.nfc = none ∧
    next = { draft with access := { draft.access with nfc := some permission } }
  | .permissions mask, next => draft.access.permissions = none ∧
    next = { draft with access := { draft.access with permissions := some mask } }

section Say

variable {draft next : Draft} {words : List String}

/-- A flag with one value that says something for the first time. -/
theorem sayOnce_eq_ok_iff {α : Type} {name : String} {said : Option α}
    {read : String → Except Flaw α} {saying : α → Draft} :
    (do
      once name said
      let a ← oneValue name read words
      .ok (saying a)) = (.ok next : Except Flaw Draft) ↔
      ∃ word a, words = [word] ∧ read word = .ok a ∧ said = none ∧ next = saying a := by
  simp only [bind_eq_ok_iff, once_eq_ok_iff, oneValue_eq_ok_iff, Except.ok.injEq]
  constructor
  · rintro ⟨_, hfree, a, ⟨word, rfl, hread⟩, rfl⟩
    exact ⟨word, a, rfl, hread, hfree, rfl⟩
  · rintro ⟨word, a, rfl, hread, hfree, rfl⟩
    exact ⟨(), hfree, a, ⟨word, rfl, hread⟩, rfl⟩

/-- A permission for all commands is said without values, to a draft that says nothing about them.
-/
theorem sayWhole_eq_ok_iff {permission : Permission} :
    draft.say (.apdu permission) words = .ok next ↔
      words = [] ∧ draft.access.apdu = none ∧ next = draft.withApdu (some (.whole permission)) := by
  cases hsaid : draft.access.apdu with
  | none =>
    simp only [Draft.say, hsaid, bind_eq_ok_iff, noMore_eq_ok_iff, Except.ok.injEq]
    constructor
    · rintro ⟨_, rfl, rfl⟩
      exact ⟨rfl, trivial, rfl⟩
    · rintro ⟨rfl, -, rfl⟩
      exact ⟨(), rfl, rfl⟩
  | some apdu =>
    simp only [Draft.say, hsaid]
    constructor
    · intro h
      cases h
    · rintro ⟨-, hfree, -⟩
      cases hfree

/-- A permission for events is said without values, to a draft that says nothing about them. -/
theorem sayNfc_eq_ok_iff {permission : Permission} :
    draft.say (.nfc permission) words = .ok next ↔
      words = [] ∧ draft.access.nfc = none ∧
        next = { draft with access := { draft.access with nfc := some permission } } := by
  cases hsaid : draft.access.nfc with
  | none =>
    simp only [Draft.say, hsaid, bind_eq_ok_iff, noMore_eq_ok_iff, Except.ok.injEq]
    constructor
    · rintro ⟨_, rfl, rfl⟩
      exact ⟨rfl, trivial, rfl⟩
    · rintro ⟨rfl, -, rfl⟩
      exact ⟨(), rfl, rfl⟩
  | some said =>
    simp only [Draft.say, hsaid]
    constructor
    · intro h
      cases h
    · rintro ⟨-, hfree, -⟩
      cases hfree

/-- Filters are said behind earlier ones, but not beside a permission for all commands. -/
theorem sayFilters_eq_ok_iff :
    draft.say .apduFilter words = .ok next ↔
      ∃ earlier filters, saidFilters draft.access.apdu = some earlier ∧
        readAllFilters Flag.apduFilter.word words = .ok filters ∧
        next = draft.withApdu (some (.filtered (earlier ++ filters))) := by
  rcases hsaid : draft.access.apdu with _ | permission | earlier
  · simp only [Draft.say, hsaid, bind_eq_ok_iff, saidFilters, Except.ok.injEq]
    constructor
    · rintro ⟨filters, hread, rfl⟩
      exact ⟨[], filters, rfl, hread, rfl⟩
    · rintro ⟨_, filters, hearlier, hread, rfl⟩
      obtain rfl := Option.some.inj hearlier
      exact ⟨filters, hread, rfl⟩
  · simp only [Draft.say, hsaid, saidFilters]
    constructor
    · intro h
      cases h
    · rintro ⟨_, _, hnone, -⟩
      cases hnone
  · simp only [Draft.say, hsaid, bind_eq_ok_iff, saidFilters, Except.ok.injEq]
    constructor
    · rintro ⟨filters, hread, rfl⟩
      exact ⟨earlier, filters, rfl, hread, rfl⟩
    · rintro ⟨_, filters, hearlier, hread, rfl⟩
      obtain rfl := Option.some.inj hearlier
      exact ⟨filters, hread, rfl⟩

/-- An option whose values are no flags is accepted exactly if it spells a clause that the draft
    can take. -/
theorem say_eq_ok_iff {flag : Flag} (hvalues : ∀ value ∈ words, isFlag value = false) :
    draft.say flag words = .ok next ↔
      ∃ clause, Clause.Spelled clause (flag, words) ∧ draft.Takes clause next := by
  cases flag with
  | aid =>
    simp only [Draft.say, sayOnce_eq_ok_iff, readOctets_eq_ok_iff]
    constructor
    · rintro ⟨word, octets, rfl, hspells, htakes⟩
      exact ⟨.target octets, .aid hspells, htakes⟩
    · rintro ⟨_, hspelled, htakes⟩
      -- each option spells clauses of one kind only
      cases hspelled with
      | aid hspells => exact ⟨_, _, rfl, hspells, htakes⟩
  | anyAid =>
    simp only [Draft.say, bind_eq_ok_iff, once_eq_ok_iff, noMore_eq_ok_iff, Except.ok.injEq]
    constructor
    · rintro ⟨_, hfree, _, rfl, rfl⟩
      exact ⟨.target [], .anyAid, hfree, rfl⟩
    · rintro ⟨_, ⟨⟩, hfree, rfl⟩
      exact ⟨(), hfree, (), rfl, rfl⟩
  | deviceAppId =>
    simp only [Draft.say, sayOnce_eq_ok_iff, readOctets_eq_ok_iff]
    constructor
    · rintro ⟨word, octets, rfl, hspells, htakes⟩
      exact ⟨.deviceAppId octets, .deviceAppId hspells, htakes⟩
    · rintro ⟨_, hspelled, htakes⟩
      cases hspelled with
      | deviceAppId hspells => exact ⟨_, _, rfl, hspells, htakes⟩
  | packageName =>
    simp only [Draft.say, sayOnce_eq_ok_iff, Except.ok.injEq]
    constructor
    · rintro ⟨word, _, rfl, rfl, htakes⟩
      exact ⟨.packageName word, .packageName (hvalues word List.mem_cons_self), htakes⟩
    · rintro ⟨_, hspelled, htakes⟩
      cases hspelled with
      | packageName _ => exact ⟨_, _, rfl, rfl, htakes⟩
  | apdu permission =>
    rw [sayWhole_eq_ok_iff]
    constructor
    · rintro ⟨rfl, htakes⟩
      exact ⟨.apdu permission, .apdu, htakes⟩
    · rintro ⟨_, ⟨⟩, htakes⟩
      exact ⟨rfl, htakes⟩
  | apduFilter =>
    simp only [sayFilters_eq_ok_iff, readAllFilters_eq_ok_iff]
    constructor
    · rintro ⟨earlier, filters, hearlier, ⟨hsome, values, hspells, hsplit⟩, hnext⟩
      exact ⟨.filters values, .filters hsome hspells, earlier, filters, hearlier, hsplit, hnext⟩
    · rintro ⟨_, hspelled, htakes⟩
      cases hspelled with
      | filters hsome hspells =>
        obtain ⟨earlier, filters, hearlier, hsplit, hnext⟩ := htakes
        exact ⟨earlier, filters, hearlier, ⟨hsome, _, hspells, hsplit⟩, hnext⟩
  | nfc permission =>
    rw [sayNfc_eq_ok_iff]
    constructor
    · rintro ⟨rfl, htakes⟩
      exact ⟨.nfc permission, .nfc, htakes⟩
    · rintro ⟨_, ⟨⟩, htakes⟩
      exact ⟨rfl, htakes⟩
  | permissions =>
    simp only [Draft.say, sayOnce_eq_ok_iff, readMask_eq_ok_iff]
    constructor
    · rintro ⟨word, mask, rfl, ⟨hdigits, hsize⟩, htakes⟩
      exact ⟨.permissions mask, .permissions hdigits hsize, htakes⟩
    · rintro ⟨_, hspelled, htakes⟩
      cases hspelled with
      | permissions hdigits hsize => exact ⟨_, _, rfl, ⟨hdigits, hsize⟩, htakes⟩

end Say

/-! ## All options -/

section Steps

variable {done : List Clause} {draft : Draft} {clause : Clause}

/-- What is said with one more clause. -/
theorem Says.concat {next : Draft} (h : Says done draft)
    (htarget : draft.aid.toList ++ clause.target?.toList = next.aid.toList)
    (hdevice : draft.deviceAppId.toList ++ clause.deviceAppId?.toList = next.deviceAppId.toList)
    (hname : draft.packageName.toList ++ clause.packageName?.toList = next.packageName.toList)
    (hapdu : ApduSaid (done.filterMap Clause.apdu? ++ clause.apdu?.toList)
      (done.flatMap Clause.filterOctets ++ clause.filterOctets) next.access.apdu)
    (hnfc : draft.access.nfc.toList ++ clause.nfc?.toList = next.access.nfc.toList)
    (hmask : draft.access.permissions.toList ++ clause.permissions?.toList =
      next.access.permissions.toList) : Says (done ++ [clause]) next := by
  -- behind the others, the new clause is what comes last of each kind
  have hlast : ∀ {α : Type} (f : Clause → Option α),
      (done ++ [clause]).filterMap f = done.filterMap f ++ (f clause).toList := by
    intro α f
    rw [List.filterMap_append, List.filterMap_cons]
    cases f clause <;> rfl
  have hoctets : (done ++ [clause]).flatMap Clause.filterOctets =
      done.flatMap Clause.filterOctets ++ clause.filterOctets := by
    rw [List.flatMap_append, List.flatMap_singleton]
  constructor
  · rw [hlast, h.target, htarget]
  · rw [hlast, h.deviceAppId, hdevice]
  · rw [hlast, h.packageName, hname]
  · rw [hlast, hoctets]
    exact hapdu
  · rw [hlast, h.nfc, hnfc]
  · rw [hlast, h.permissions, hmask]

/-- Taking a clause keeps a draft what the clauses say. -/
theorem Says.append {next : Draft} (h : Says done draft) (htakes : draft.Takes clause next) :
    Says (done ++ [clause]) next := by
  have hapdu : ApduSaid (done.filterMap Clause.apdu? ++ [])
      (done.flatMap Clause.filterOctets ++ []) draft.access.apdu := by
    rw [List.append_nil, List.append_nil]
    exact h.apdu
  have hsame : ∀ {α : Type} (said : Option α), said.toList ++ [] = said.toList :=
    fun said => List.append_nil _
  cases clause with
  | target octets =>
    obtain ⟨hfree, rfl⟩ := htakes
    refine h.concat ?_ (hsame _) (hsame _) hapdu (hsame _) (hsame _)
    -- what is said for the first time is all that is said of its kind
    rw [hfree]
    rfl
  | deviceAppId octets =>
    obtain ⟨hfree, rfl⟩ := htakes
    refine h.concat (hsame _) ?_ (hsame _) hapdu (hsame _) (hsame _)
    rw [hfree]
    rfl
  | packageName name =>
    obtain ⟨hfree, rfl⟩ := htakes
    refine h.concat (hsame _) (hsame _) ?_ hapdu (hsame _) (hsame _)
    rw [hfree]
    rfl
  | apdu permission =>
    obtain ⟨hfree, rfl⟩ := htakes
    refine h.concat (hsame _) (hsame _) (hsame _) ?_ (hsame _) (hsame _)
    rw [hfree] at hapdu
    obtain ⟨hwholes, hoctets⟩ := hapdu
    rw [List.append_nil] at hwholes
    rw [hwholes]
    exact ⟨rfl, hoctets⟩
  | filters values =>
    obtain ⟨earlier, filters, hearlier, hsplit, rfl⟩ := htakes
    refine h.concat (hsame _) (hsame _) (hsame _) ?_ (hsame _) (hsame _)
    have hmore := h.apdu.append hearlier hsplit
    rw [← List.append_nil (done.filterMap Clause.apdu?)] at hmore
    exact hmore
  | nfc permission =>
    obtain ⟨hfree, rfl⟩ := htakes
    refine h.concat (hsame _) (hsame _) (hsame _) hapdu ?_ (hsame _)
    rw [hfree]
    rfl
  | permissions mask =>
    obtain ⟨hfree, rfl⟩ := htakes
    refine h.concat (hsame _) (hsame _) (hsame _) hapdu (hsame _) ?_
    rw [hfree]
    rfl

/-- What a clause says has not been said before, if it can be said with what follows. -/
theorem eq_none_of_filterMap {α : Type} {f : Clause → Option α} {said other : Option α} {a : α}
    {rest : List Clause} (h : done.filterMap f = said.toList) (hclause : f clause = some a)
    (hall : (done ++ clause :: rest).filterMap f = other.toList) : said = none := by
  rw [List.filterMap_append, h, List.filterMap_cons_some hclause] at hall
  exact eq_none_of_toList_append hall

/-- A clause that can be said with what follows is taken. -/
theorem Says.exists_takes {final : Draft} {rest : List Clause} {option : Flag × List String}
    (h : Says done draft) (hspelled : clause.Spelled option)
    (hall : Says (done ++ clause :: rest) final) : ∃ next, draft.Takes clause next := by
  have hapdu := hall.apdu
  rw [List.filterMap_append, List.flatMap_append, List.flatMap_cons] at hapdu
  cases clause with
  | target octets => exact ⟨_, eq_none_of_filterMap h.target rfl hall.target, rfl⟩
  | deviceAppId octets =>
    exact ⟨_, eq_none_of_filterMap h.deviceAppId rfl hall.deviceAppId, rfl⟩
  | packageName name => exact ⟨_, eq_none_of_filterMap h.packageName rfl hall.packageName, rfl⟩
  | apdu permission =>
    -- a permission for all commands is the only clause about them in the end, so nothing was said
    -- so far
    obtain ⟨hwholes, hoctets⟩ := hapdu.eq_nil
    have hsaid := h.apdu
    rw [hwholes, (List.append_eq_nil_iff.mp hoctets).1] at hsaid
    exact ⟨_, hsaid.eq ⟨rfl, rfl⟩, rfl⟩
  | filters values =>
    cases hspelled with
    | filters hsome hspells =>
      obtain ⟨filters, hsplit⟩ := exists_splitFilters_flatten hsome hspells
      have hvalues : values.flatten ≠ [] := (exists_splitFilters_iff.mp ⟨filters, hsplit⟩).1
      have hwholes := hapdu.wholes_eq_nil fun hnil =>
        hvalues (List.append_eq_nil_iff.mp (List.append_eq_nil_iff.mp hnil).2).1
      have hsaid := h.apdu
      rw [(List.append_eq_nil_iff.mp hwholes).1] at hsaid
      obtain ⟨earlier, hearlier⟩ := hsaid.exists_filters
      exact ⟨_, earlier, filters, hearlier, hsplit, rfl⟩
  | nfc permission => exact ⟨_, eq_none_of_filterMap h.nfc rfl hall.nfc, rfl⟩
  | permissions mask => exact ⟨_, eq_none_of_filterMap h.permissions rfl hall.permissions, rfl⟩

end Steps

/-- Behind what has been said, options whose values are no flags are accepted exactly if they spell
    clauses that, with those said before, say something. -/
theorem sayAll_eq_ok_iff {options : List (Flag × List String)}
    (hvalues : ∀ option ∈ options, ∀ value ∈ option.2, isFlag value = false)
    {done : List Clause} {draft final : Draft} (h : Says done draft) :
    draft.sayAll options = .ok final ↔
      ∃ clauses, List.Forall₂ Clause.Spelled clauses options ∧ Says (done ++ clauses) final := by
  induction options generalizing done draft with
  | nil =>
    constructor
    · intro hnil
      obtain rfl := Except.ok.inj hnil
      refine ⟨[], .nil, ?_⟩
      rw [List.append_nil]
      exact h
    · rintro ⟨clauses, hspelled, hfinal⟩
      cases hspelled
      rw [List.append_nil] at hfinal
      rw [h.eq hfinal]
      rfl
  | cons option options ih =>
    obtain ⟨hoption, hoptions⟩ := List.forall_mem_cons.mp hvalues
    simp only [Draft.sayAll_cons, bind_eq_ok_iff, say_eq_ok_iff hoption]
    constructor
    · rintro ⟨next, ⟨clause, hspelled, htakes⟩, hrest⟩
      obtain ⟨clauses, hclauses, hfinal⟩ := (ih hoptions (h.append htakes)).mp hrest
      rw [← List.append_cons] at hfinal
      exact ⟨clause :: clauses, .cons hspelled hclauses, hfinal⟩
    · rintro ⟨clauses, hspelled, hfinal⟩
      cases hspelled with
      | @cons clause _ clauses _ hspelled hclauses =>
        -- what all clauses together say leaves room for this one
        obtain ⟨next, htakes⟩ := h.exists_takes hspelled hfinal
        rw [List.append_cons] at hfinal
        exact ⟨next, ⟨clause, hspelled, htakes⟩,
          (ih hoptions (h.append htakes)).mpr ⟨clauses, hclauses, hfinal⟩⟩

end AccessRules.Script
