import AccessRules.Rule.Basic
import AccessRules.Script.Flaw

/-!
# The options of a rule

The words after `store-rule` describe a rule. A word that begins with two hyphens is a flag, and
the words behind it up to the next flag are its values. The groups of a flag and its values may
stand in any order.
-/

namespace AccessRules.Script

/-! ## Flags -/

/-- The flags of a rule. -/
inductive Flag
  | aid | anyAid | deviceAppId | packageName
  | apdu (permission : Permission)
  | apduFilter
  | nfc (permission : Permission)
  | permissions
  deriving DecidableEq, Repr

/-- A flag as it is written. -/
def Flag.word : Flag → String
  | .aid => "--aid"
  | .anyAid => "--aid-empty"
  | .deviceAppId => "--device-app-id"
  | .packageName => "--pkg-ref"
  | .apdu .never => "--apdu-never"
  | .apdu .always => "--apdu-always"
  | .apduFilter => "--apdu-filter"
  | .nfc .never => "--nfc-never"
  | .nfc .always => "--nfc-always"
  | .permissions => "--android-permissions"

/-- Every flag. -/
def Flag.all : List Flag :=
  [.aid, .anyAid, .deviceAppId, .packageName, .apdu .never, .apdu .always, .apduFilter,
    .nfc .never, .nfc .always, .permissions]

/-- The flag that a word is. -/
def Flag.ofWord? (word : String) : Option Flag := Flag.all.find? (·.word = word)

/-- A flag is found by its own word. -/
theorem Flag.ofWord?_word (flag : Flag) : Flag.ofWord? flag.word = some flag := by
  cases flag with
  | apdu permission => cases permission <;> decide
  | nfc permission => cases permission <;> decide
  | _ => decide

/-! ## Writing a rule -/

/-- The word for no octets. -/
def emptyWord : String := "empty"

/-- Octets as a word. -/
def octetsWord (octets : Bytes) : String := if octets = [] then emptyWord else Hex.encode octets

/-- A target as a word. -/
def targetWord : Target → String
  | .any => emptyWord
  | .aid octets => octetsWord octets

/-- The words of the access to commands. -/
def apduWords : ApduAccess → List String
  | .whole permission => [(Flag.apdu permission).word]
  | .filtered filters => filters.flatMap fun filter =>
    [Flag.apduFilter.word, Hex.encode (filter.header ++ filter.mask)]

/-- The words that describe a rule. -/
def ruleWords (rule : Rule) : List String :=
  [Flag.aid.word, targetWord rule.reference.target,
    Flag.deviceAppId.word, octetsWord rule.reference.deviceAppId] ++
  (rule.reference.packageName.map fun name => [Flag.packageName.word, name]).getD [] ++
  (rule.access.apdu.map apduWords).getD [] ++
  (rule.access.nfc.map fun permission => [(Flag.nfc permission).word]).getD [] ++
  (rule.access.permissions.map fun mask => [Flag.permissions.word, Hex.encode mask]).getD []

/-! ## Groups -/

/-- A flag and the words behind it. -/
structure Group where
  flag : String
  values : List String
  deriving DecidableEq, Repr

/-- Whether a word begins with two hyphens. -/
def isFlag (word : String) : Bool :=
  match word.toList with
  | '-' :: '-' :: _ => true
  | _ => false

/-- The words in front of the first flag, and the groups. -/
def groups (words : List String) : List String × List Group :=
  words.foldr
    (fun word found =>
      if isFlag word then ([], ⟨word, found.1⟩ :: found.2) else (word :: found.1, found.2))
    ([], [])

/-! ## Reading a rule -/

/-- What the options have said so far. -/
structure Draft where
  aid : Option Bytes := none
  deviceAppId : Option Bytes := none
  packageName : Option String := none
  access : Access := {}
  deriving DecidableEq, Repr

/-- Fails if something has been said already. -/
def once {α : Type} (name : String) (said : Option α) : Except Flaw Unit :=
  match said with
  | some _ => .error (.field name .repeated)
  | none => .ok ()

/-- Fails at the first word that belongs to no flag. -/
def noMore : List String → Except Flaw Unit
  | [] => .ok ()
  | word :: _ => .error (.field word .unknownOption)

/-- The one value of a flag. -/
def oneValue {α : Type} (name : String) (read : String → Except Flaw α) :
    List String → Except Flaw α
  | [] => .error (.field name .missingValue)
  | value :: more => do
    let read ← read value
    noMore more
    .ok read

/-- Octets in digits, or the word for none. -/
def readOctets (name value : String) : Except Flaw Bytes :=
  if value = emptyWord then .ok []
  else
    match Hex.decode? value with
    | some (octet :: octets) => .ok (octet :: octets)
    | _ => .error (.field name (.notHex value))

/-- The filters in one value. -/
def readFilters (name value : String) : Except Flaw (List ApduFilter) := do
  let octets ← readOctets name value
  match splitFilters? octets with
  | some filters => .ok filters
  | none => .error (.field name (.filterSize octets.length))

/-- The filters in all values of a flag, which has at least one. -/
def readAllFilters (name : String) : List String → Except Flaw (List ApduFilter)
  | [] => .error (.field name .missingValue)
  | [value] => readFilters name value
  | value :: more => do
    let first ← readFilters name value
    let rest ← readAllFilters name more
    .ok (first ++ rest)

/-- The mask of carrier privileges in a value. -/
def readMask (name value : String) : Except Flaw Bytes :=
  match Hex.decode? value with
  | some octets =>
    if octets.length = permissionsSize then .ok octets
    else .error (.field name (.notPermissions value))
  | none => .error (.field name (.notPermissions value))

/-- What a draft says with one more option. -/
def Draft.say (draft : Draft) (flag : Flag) (values : List String) : Except Flaw Draft :=
  let name := flag.word
  match flag with
  | .aid => do
    once name draft.aid
    let octets ← oneValue name (readOctets name) values
    .ok { draft with aid := some octets }
  | .anyAid => do
    once Flag.aid.word draft.aid
    noMore values
    .ok { draft with aid := some [] }
  | .deviceAppId => do
    once name draft.deviceAppId
    let octets ← oneValue name (readOctets name) values
    .ok { draft with deviceAppId := some octets }
  | .packageName => do
    once name draft.packageName
    let text ← oneValue name .ok values
    .ok { draft with packageName := some text }
  | .apdu permission =>
    match draft.access.apdu with
    | some _ => .error (.field name (.conflict .apdu))
    | none => do
      noMore values
      .ok { draft with access := { draft.access with apdu := some (.whole permission) } }
  | .apduFilter =>
    match draft.access.apdu with
    | some (.whole _) => .error (.field name (.conflict .apdu))
    | some (.filtered earlier) => do
      let filters ← readAllFilters name values
      .ok { draft with
        access := { draft.access with apdu := some (.filtered (earlier ++ filters)) } }
    | none => do
      let filters ← readAllFilters name values
      .ok { draft with access := { draft.access with apdu := some (.filtered filters) } }
  | .nfc permission =>
    match draft.access.nfc with
    | some _ => .error (.field name (.conflict .nfc))
    | none => do
      noMore values
      .ok { draft with access := { draft.access with nfc := some permission } }
  | .permissions => do
    once name draft.access.permissions
    let mask ← oneValue name (readMask name) values
    .ok { draft with access := { draft.access with permissions := some mask } }

/-- What a draft says with one more group. -/
def Draft.sayGroup (draft : Draft) (group : Group) : Except Flaw Draft :=
  match Flag.ofWord? group.flag with
  | some flag => draft.say flag group.values
  | none => .error (.field group.flag .unknownOption)

/-- What a required option says. -/
def required {α : Type} (flag : Flag) : Option α → Except Flaw α
  | some said => .ok said
  | none => .error (.field flag.word .required)

/-- The word that begins the description of a rule. -/
def storeRuleWord : String := "store-rule"

/-- The rule that a draft describes. -/
def Draft.rule (draft : Draft) : Except Flaw Rule := do
  let aid ← required .aid draft.aid
  let deviceAppId ← required .deviceAppId draft.deviceAppId
  let input : RuleInput :=
    ⟨.identifier (.given aid), .given deviceAppId, draft.packageName, draft.access⟩
  (Rule.create input).mapError fun flaw => .field storeRuleWord (.rule flaw)

/-- The rule that words describe. -/
def readRule (words : List String) : Except Flaw Rule := do
  let (loose, groups) := groups words
  noMore loose
  let draft ← groups.foldlM Draft.sayGroup {}
  draft.rule

end AccessRules.Script
