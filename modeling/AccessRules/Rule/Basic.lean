import AccessRules.Hex

/-!
# Access rules

A rule lets a device application reach applications on a secure element. Its reference names both
sides, and no two rules of a store have the same reference. Its access says what is allowed.

The types hold whatever callers and cards hand over. `Rule.create` and `Rule.decode` are what gives
rules that keep to the limits of the format.
-/

namespace AccessRules

/-! ## Whom a rule is about -/

/-- The applications on the secure element that a rule is about. -/
inductive Target
  /-- Every application. -/
  | any
  /-- The application with this identifier. -/
  | aid (octets : Bytes)
  deriving DecidableEq, Repr

/-- The target that an identifier names: without octets it names every application. -/
def Target.ofOctets (octets : Bytes) : Target := if octets = [] then .any else .aid octets

/-- The target with an identifier without octets read as every application. -/
def Target.normalize : Target → Target
  | .any => .any
  | .aid octets => Target.ofOctets octets

/-- Whom a rule is about: the target, the certificate hash of the device application, which is
empty for every application, and the package name that narrows it down. -/
structure Reference where
  target : Target
  deviceAppId : Bytes
  packageName : Option String := none
  deriving DecidableEq, Repr

/-- The target as it stands in a key. -/
def Target.key : Target → String
  | .any => "*"
  | .aid octets => Hex.encode octets

/-- A reference as text: its target, the device application and, where there is one, the package
name. -/
def Reference.key (reference : Reference) : String :=
  let key := reference.target.key ++ "/" ++ Hex.encode reference.deviceAppId
  match reference.packageName with
  | none => key
  | some name => key ++ "/" ++ name

/-! ## What a rule allows -/

/-- Access that is allowed or denied as a whole. -/
inductive Permission
  | never | always
  deriving DecidableEq, Repr

/-- The octet of a permission. -/
def Permission.octet : Permission → UInt8
  | .never => 0
  | .always => 1

/-- The permission that an octet stands for. -/
def Permission.ofOctet? (octet : UInt8) : Option Permission :=
  if octet = 0 then some .never else if octet = 1 then some .always else none

/-- The commands whose headers, under the mask, are this header. -/
structure ApduFilter where
  header : Bytes
  mask : Bytes
  deriving DecidableEq, Repr

/-- Access to commands. -/
inductive ApduAccess
  | whole (permission : Permission)
  /-- The commands that one of the filters lets through. -/
  | filtered (filters : List ApduFilter)
  deriving DecidableEq, Repr

/-- What a rule says of commands, of contactless events and of carrier privileges. -/
structure Access where
  apdu : Option ApduAccess := none
  nfc : Option Permission := none
  permissions : Option Bytes := none
  deriving DecidableEq, Repr

/-- An access rule. -/
structure Rule where
  reference : Reference
  access : Access
  deriving DecidableEq, Repr

/-- The text of the rule's reference. -/
def Rule.key (rule : Rule) : String := rule.reference.key

/-! ## Filters as octets -/

/-- How many octets a filter has: a header and a mask of four octets each. -/
def filterSize : Nat := 8

/-- The headers and masks of filters in a row. -/
def joinFilters (filters : List ApduFilter) : Bytes :=
  filters.flatMap fun filter => filter.header ++ filter.mask

/-- The filters that a whole number of headers and masks in a row makes. -/
def cutFilters (octets : Bytes) : List ApduFilter :=
  match octets with
  | [] => []
  | octet :: rest =>
    ⟨(octet :: rest).take 4, ((octet :: rest).drop 4).take 4⟩ ::
      cutFilters ((octet :: rest).drop filterSize)
termination_by octets.length
decreasing_by
  simp only [filterSize, List.length_drop, List.length_cons]
  omega

/-- Whether octets are a whole number of filters, and not none. -/
def areFilters (octets : Bytes) : Bool := octets.length ≠ 0 && octets.length % filterSize = 0

/-- The filters in octets, if they are a whole number of filters and not none. -/
def splitFilters? (octets : Bytes) : Option (List ApduFilter) :=
  if areFilters octets then some (cutFilters octets) else none

/-- The octets of the access to commands. -/
def ApduAccess.octets : ApduAccess → Bytes
  | .whole permission => [permission.octet]
  | .filtered filters => joinFilters filters

/-! ## Sameness -/

/-- Whether two accesses to commands are the same, wherever headers end and masks begin. -/
def ApduAccess.same : ApduAccess → ApduAccess → Bool
  | .filtered filters, .filtered others => joinFilters filters = joinFilters others
  | access, other => access = other

/-- Whether two rules are the same field by field, filters being compared as octets in a row. -/
def Rule.same (a b : Rule) : Bool :=
  a.reference = b.reference &&
    (match a.access.apdu, b.access.apdu with
      | none, none => true
      | some access, some other => access.same other
      | _, _ => false) &&
    a.access.nfc = b.access.nfc && a.access.permissions = b.access.permissions

end AccessRules
