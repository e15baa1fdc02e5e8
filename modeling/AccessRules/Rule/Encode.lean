import AccessRules.Rule.Basic
import AccessRules.Rule.Objects
import AccessRules.Text.Units
import AccessRules.Tlv.Element

/-!
# Rules as octets

A rule is written as one data object whose children come in a fixed order: the target, the device
application and the package name in the reference; commands, contactless events and carrier
privileges in the access.
-/

namespace AccessRules

/-- The data objects in a row. -/
def encodeAll : List (Nat × Bytes) → Except Tlv.RangeFlaw Bytes
  | [] => .ok []
  | (tag, value) :: objects => do
    let first ← Tlv.encode tag value
    let rest ← encodeAll objects
    .ok (first ++ rest)

/-- The data object of a target. -/
def Target.object : Target → Nat × Bytes
  | .any => (Objects.anyAidRef, [])
  | .aid octets => (Objects.aidRef, octets)

/-- The children of a reference. -/
def Reference.objects (reference : Reference) : List (Nat × Bytes) :=
  reference.target.object :: (Objects.deviceAppIdRef, reference.deviceAppId) ::
    (reference.packageName.map fun name => (Objects.packageRef, Text.lowOctets name)).toList

/-- The children of an access. -/
def Access.objects (access : Access) : List (Nat × Bytes) :=
  (access.apdu.map fun apdu => (Objects.apduAccess, apdu.octets)).toList ++
    (access.nfc.map fun permission => (Objects.nfcAccess, [permission.octet])).toList ++
    (access.permissions.map fun mask => (Objects.permissions, mask)).toList

/-- The encoding of a rule. -/
def Rule.encode (rule : Rule) : Except Tlv.RangeFlaw Bytes := do
  let reference ← encodeAll rule.reference.objects
  let access ← encodeAll rule.access.objects
  let children ← encodeAll [(Objects.reference, reference), (Objects.access, access)]
  Tlv.encode Objects.rule children

example : (Rule.encode ⟨⟨.any, [], none⟩, { nfc := some .always }⟩).toOption
    = some [0xe2, 11, 0xe1, 4, 0xc0, 0, 0xc1, 0, 0xe3, 3, 0xd1, 1, 1] := by decide

end AccessRules
