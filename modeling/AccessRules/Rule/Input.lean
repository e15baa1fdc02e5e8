import AccessRules.Report
import AccessRules.Rule.Basic

/-!
# Rules from callers

Callers hand over identifiers as octets or as hexadecimal text. `Rule.create` checks them against
the limits of the format, in the order of the fields, and reports the first limit that is broken.
-/

namespace AccessRules

/-! ## The limits -/

/-- The longest identifier of an application. -/
def maxAidSize : Nat := 16

/-- The sizes of a certificate hash; the empty one stands for every application. -/
def deviceAppIdSizes : List Nat := [0, 20, 32]

/-- The size of the mask of carrier privileges. -/
def permissionsSize : Nat := 8

/-- The characters of a package name: visible ones of ASCII. -/
def isVisible (c : Char) : Bool := 0x21 ≤ c.toNat && c.toNat ≤ 0x7e

/-- Whether a text is a package name: up to 127 visible characters of which the first is no
hyphen. -/
def isPackageName (text : String) : Bool :=
  match text.toList with
  | [] => false
  | first :: rest => first ≠ '-' && (first :: rest).all isVisible && rest.length < 127

/-- The rule of package names in words. -/
def packageNameRule : String := "1-127 visible ASCII characters, without spaces or a leading -"

/-! ## Input -/

/-- Octets, given as such or as hexadecimal text. -/
inductive Octets
  | given (octets : Bytes)
  | text (digits : String)
  deriving DecidableEq, Repr

/-- A target, given as such or as its identifier. -/
inductive TargetInput
  | given (target : Target)
  | identifier (octets : Octets)
  deriving DecidableEq, Repr

/-- A rule as callers hand it over. -/
structure RuleInput where
  target : TargetInput
  deviceAppId : Octets
  packageName : Option String := none
  access : Access
  deriving DecidableEq, Repr

/-- Which limit an input breaks. -/
inductive InputFlaw
  | notHex (text : String)
  | longAid
  | deviceAppIdSize (size : Nat)
  | packageName
  | noAccess
  | noFilter
  | filterSize
  | permissionsSize (size : Nat)
  deriving DecidableEq, Repr

/-- The wording of a broken limit. -/
def InputFlaw.message : InputFlaw → String
  | .notHex text => s!"Invalid hex string '{text}'"
  | .longAid => s!"AID must be at most {maxAidSize} bytes"
  | .deviceAppIdSize size => s!"Device application id must be empty, 20 or 32 bytes, got {size}"
  | .packageName => "Package name must be " ++ packageNameRule
  | .noAccess => "Access rule must define at least one of APDU, NFC or permission rules"
  | .noFilter => "Filtered APDU rule requires at least one filter"
  | .filterSize => "APDU filter header and mask must each be 4 bytes"
  | .permissionsSize size =>
    s!"Android permissions must be {AccessRules.permissionsSize} bytes, got {size}"

/-- The report of a broken limit. -/
def InputFlaw.report (flaw : InputFlaw) : Report := Report.record flaw.message 0

/-! ## Reading it -/

/-- The octets that are meant. -/
def Octets.read : Octets → Except InputFlaw Bytes
  | .given octets => .ok octets
  | .text digits =>
    match Hex.decode? digits with
    | some octets => .ok octets
    | none => .error (.notHex digits)

/-- The target that is meant. -/
def TargetInput.read : TargetInput → Except InputFlaw Target
  | .given target => .ok target.normalize
  | .identifier octets => octets.read.map Target.ofOctets

/-- The reference that is meant; its limits are not checked. -/
def readReference (target : TargetInput) (deviceAppId : Octets) (packageName : Option String) :
    Except InputFlaw Reference := do
  let target ← target.read
  let deviceAppId ← deviceAppId.read
  .ok ⟨target, deviceAppId, packageName⟩

/-- Octets that are no filters. -/
structure NotFilters where
  octets : Bytes
  deriving DecidableEq, Repr

/-- The report of octets that are no filters. -/
def NotFilters.report (_ : NotFilters) : Report :=
  Report.range s!"APDU filter data must be a non-empty multiple of {AccessRules.filterSize} bytes"

/-- The filters in octets, which must be a whole number of filters and not none. -/
def splitFilters (octets : Bytes) : Except NotFilters (List ApduFilter) :=
  match splitFilters? octets with
  | some filters => .ok filters
  | none => .error ⟨octets⟩

/-! ## Creating a rule -/

/-- Which limit the size of a target breaks. -/
def Target.flaw? : Target → Option InputFlaw
  | .any => none
  | .aid octets => if maxAidSize < octets.length then some .longAid else none

/-- Which limit the access to commands breaks. -/
def ApduAccess.flaw? : ApduAccess → Option InputFlaw
  | .whole _ => none
  | .filtered filters =>
    if filters = [] then some .noFilter
    else if filters.all fun filter => filter.header.length = 4 && filter.mask.length = 4 then none
    else some .filterSize

/-- Which limit an access breaks first. -/
def Access.flaw? (access : Access) : Option InputFlaw :=
  if access.apdu.isNone && access.nfc.isNone && access.permissions.isNone then some .noAccess
  else
    match access.apdu.bind ApduAccess.flaw? with
    | some flaw => some flaw
    | none =>
      match access.permissions with
      | none => none
      | some mask =>
        if mask.length = permissionsSize then none else some (.permissionsSize mask.length)

/-- Fails with the flaw, if there is one. -/
def failOn (flaw : Option InputFlaw) : Except InputFlaw Unit :=
  match flaw with
  | some flaw => .error flaw
  | none => .ok ()

/-- The rule that is meant, or the first limit that it breaks. -/
def Rule.create (input : RuleInput) : Except InputFlaw Rule := do
  let target ← input.target.read
  failOn target.flaw?
  let deviceAppId ← input.deviceAppId.read
  failOn (if deviceAppId.length ∈ deviceAppIdSizes then none
    else some (.deviceAppIdSize deviceAppId.length))
  failOn (if input.packageName.all isPackageName then none else some .packageName)
  failOn input.access.flaw?
  .ok ⟨⟨target, deviceAppId, input.packageName⟩, input.access⟩

example : (Rule.create ⟨.identifier (.text "a0"), .text "", none, { nfc := some .always }⟩).toOption
    = some ⟨⟨.aid [0xa0], [], none⟩, { nfc := some .always }⟩ := by decide

end AccessRules
