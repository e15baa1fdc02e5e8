import AccessRules.Rule.Input
import AccessRules.Rule.Objects
import AccessRules.Tlv.Flaw

/-!
# What can be wrong with an encoded rule

Each way in which octets fail to be a rule is one constructor. Where it was met is kept beside it.
-/

namespace AccessRules

/-- The data objects of a rule that hold others. -/
inductive Container
  | rule | reference | access
  deriving DecidableEq, Repr

/-- The customary name of a container. -/
def Container.name : Container → String
  | .rule => "REF-AR-DO"
  | .reference => "REF-DO"
  | .access => "AR-DO"

/-- The tags that a container may hold. -/
def Container.allowed : Container → List Nat
  | .rule => [Objects.reference, Objects.access]
  | .reference =>
    [Objects.aidRef, Objects.anyAidRef, Objects.deviceAppIdRef, Objects.packageRef]
  | .access => [Objects.apduAccess, Objects.nfcAccess, Objects.permissions]

/-- Why octets are not a rule. -/
inductive RuleFlaw
  /-- They do not begin with a data object. -/
  | unreadable (flaw : Located Tlv.Flaw)
  | otherTag (tag : Nat)
  | trailing
  /-- The value of an object is not made of data objects. -/
  | inside (tag : Nat) (flaw : Located Tlv.Flaw)
  | duplicate (tag : Nat)
  | unexpected (tag : Nat) (container : Container)
  | missingReference
  | missingAccess
  | twoTargets
  | anyAidValue
  | missingTarget
  | aidSize
  | missingDeviceAppId
  | deviceAppIdSize (size : Nat)
  | packageName
  | emptyAccess
  | apduOctet
  | apduSize (size : Nat)
  | nfcValue
  | permissionsSize (size : Nat)
  deriving DecidableEq, Repr

/-- The message of a located flaw in a data object. -/
def Tlv.Flaw.located (flaw : Located Tlv.Flaw) : String := (Tlv.Flaw.report flaw).message

/-- The wording of a flaw. -/
def RuleFlaw.message : RuleFlaw → String
  | .unreadable flaw => "Invalid REF-AR-DO: " ++ Tlv.Flaw.located flaw
  | .otherTag tag => "Expected REF-AR-DO (E2), got tag " ++ Hex.numberUpper tag
  | .trailing => "Trailing bytes after REF-AR-DO"
  | .inside tag flaw =>
    "Invalid TLV inside tag " ++ Hex.numberUpper tag ++ ": " ++ Tlv.Flaw.located flaw
  | .duplicate tag => "Duplicate tag " ++ Hex.numberUpper tag
  | .unexpected tag container =>
    "Unexpected tag " ++ Hex.numberUpper tag ++ " in " ++ container.name
  | .missingReference => "REF-AR-DO is missing REF-DO"
  | .missingAccess => "REF-AR-DO is missing AR-DO"
  | .twoTargets => "REF-DO holds both AID-REF-DO and AID-REF-DO-Empty"
  | .anyAidValue => "AID-REF-DO-Empty must have zero length"
  | .missingTarget => "REF-DO is missing the AID reference"
  | .aidSize => s!"AID-REF-DO must be 1-{maxAidSize} bytes"
  | .missingDeviceAppId => "REF-DO is missing DeviceAppID-REF-DO"
  | .deviceAppIdSize size => s!"DeviceAppID-REF-DO must be empty, 20 or 32 bytes, got {size}"
  | .packageName => "PKG-REF-DO must be " ++ packageNameRule
  | .emptyAccess => "AR-DO is empty"
  | .apduOctet => "Invalid generic APDU access rule"
  | .apduSize size => s!"APDU filter length {size} is not a multiple of {filterSize}"
  | .nfcValue => "NFC-AR-DO must be a single 00 or 01 byte"
  | .permissionsSize size => s!"PERM-AR-DO must be {AccessRules.permissionsSize} bytes, got {size}"

/-- The flaw of a data object that a flaw comes from. -/
def RuleFlaw.cause? : RuleFlaw → Option (Located Tlv.Flaw)
  | .unreadable flaw => some flaw
  | .inside _ flaw => some flaw
  | _ => none

/-- The report of a located flaw. -/
def RuleFlaw.report (flaw : Located RuleFlaw) : Report :=
  let report := Report.record flaw.reason.message flaw.offset
  match flaw.reason.cause? with
  | some cause => report.causedBy (Tlv.Flaw.report cause)
  | none => report

/-- The report says where the flaw is. -/
theorem RuleFlaw.notice_report (flaw : Located RuleFlaw) :
    (RuleFlaw.report flaw).notice.category = .coded .malformedRecord ∧
      (RuleFlaw.report flaw).notice.particulars = { offset := some flaw.offset } := by
  unfold RuleFlaw.report
  dsimp only
  split <;> exact ⟨rfl, rfl⟩

end AccessRules
