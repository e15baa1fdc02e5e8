import AccessRules.Rule.Flaw
import AccessRules.Outcome
import AccessRules.Text.Units
import AccessRules.Tlv.Place

/-!
# Rules from octets

`Rule.decode` reads one data object that is a whole rule. It accepts the children of an object in
any order, but no child twice and none that it does not know, and it checks the values against the
same limits as `Rule.create`. A flaw is located in the octets that were read, or counted from where
these are said to start.
-/

namespace AccessRules

/-! ## Children -/

/-- The first object whose tag is among `seen` or an earlier object's. -/
def firstRepeated (seen : List Nat) : List (Placed Tlv.Element) → Option (Placed Tlv.Element)
  | [] => none
  | element :: rest =>
    if element.item.tag ∈ seen then some element
    else firstRepeated (element.item.tag :: seen) rest

/-- The children of an object, each at its place. -/
def childrenOf (parent : Placed Tlv.Element) :
    Except (Placed RuleFlaw) (List (Placed Tlv.Element)) := do
  let inner ← (Tlv.decode parent.item.value).mapError fun flaw =>
    ⟨.inside parent.item.tag flaw, parent.inValue flaw.offset⟩
  let children := inner.map fun element => ⟨element, parent.inValue element.offset⟩
  match firstRepeated [] children with
  | some child => .error ⟨.duplicate child.item.tag, child.place⟩
  | none => .ok children

/-- The children of a container that holds nothing but what it may hold. -/
def childrenIn (container : Container) (parent : Placed Tlv.Element) :
    Except (Placed RuleFlaw) (List (Placed Tlv.Element)) := do
  let children ← childrenOf parent
  match children.find? fun child => child.item.tag ∉ container.allowed with
  | some child => .error ⟨.unexpected child.item.tag container, child.place⟩
  | none => .ok children

/-- The first child with a tag. -/
def child? (tag : Nat) (children : List (Placed Tlv.Element)) : Option (Placed Tlv.Element) :=
  children.find? (·.item.tag == tag)

/-- The child with a tag, which must be there. -/
def childOr (flaw : Placed RuleFlaw) (tag : Nat) (children : List (Placed Tlv.Element)) :
    Except (Placed RuleFlaw) (Placed Tlv.Element) :=
  match child? tag children with
  | some child => .ok child
  | none => .error flaw

/-- Reads the child with a tag, if there is one. -/
def readChild {α : Type} (tag : Nat) (children : List (Placed Tlv.Element))
    (read : Placed Tlv.Element → Except (Placed RuleFlaw) α) :
    Except (Placed RuleFlaw) (Option α) :=
  match child? tag children with
  | some child => (read child).map some
  | none => .ok none

/-! ## The reference -/

/-- The target among the children of the reference at `place`. -/
def readTarget (children : List (Placed Tlv.Element)) (place : Place) :
    Except (Placed RuleFlaw) Target :=
  match child? Objects.aidRef children, child? Objects.anyAidRef children with
  | some _, some anyAid => .error ⟨.twoTargets, anyAid.place⟩
  | none, some anyAid =>
    if anyAid.item.value = [] then .ok .any else .error ⟨.anyAidValue, anyAid.place⟩
  | none, none => .error ⟨.missingTarget, place⟩
  | some aid, none =>
    let octets := aid.item.value
    if octets = [] ∨ maxAidSize < octets.length then .error ⟨.aidSize, aid.place⟩
    else .ok (.aid octets)

/-- The package name in an object. -/
def readPackageName (element : Placed Tlv.Element) : Except (Placed RuleFlaw) String :=
  let name := Text.ofSevenBit element.item.value
  if isPackageName name then .ok name else .error ⟨.packageName, element.place⟩

/-- The reference in an object. -/
def readReferenceObject (element : Placed Tlv.Element) : Except (Placed RuleFlaw) Reference := do
  let children ← childrenIn .reference element
  let target ← readTarget children element.place
  let deviceApp ← childOr ⟨.missingDeviceAppId, element.place⟩ Objects.deviceAppIdRef children
  let deviceAppId := deviceApp.item.value
  require (deviceAppId.length ∈ deviceAppIdSizes)
    ⟨.deviceAppIdSize deviceAppId.length, deviceApp.place⟩
  let packageName ← readChild Objects.packageRef children readPackageName
  .ok ⟨target, deviceAppId, packageName⟩

/-! ## The access -/

/-- The access to commands in an object. -/
def readApduAccess (element : Placed Tlv.Element) : Except (Placed RuleFlaw) ApduAccess :=
  match element.item.value with
  | [octet] =>
    match Permission.ofOctet? octet with
    | some permission => .ok (.whole permission)
    | none => .error ⟨.apduOctet, element.place⟩
  | octets =>
    match splitFilters? octets with
    | some filters => .ok (.filtered filters)
    | none => .error ⟨.apduSize octets.length, element.place⟩

/-- The access to contactless events in an object. -/
def readNfcAccess (element : Placed Tlv.Element) : Except (Placed RuleFlaw) Permission :=
  match element.item.value with
  | [octet] =>
    match Permission.ofOctet? octet with
    | some permission => .ok permission
    | none => .error ⟨.nfcValue, element.place⟩
  | _ => .error ⟨.nfcValue, element.place⟩

/-- The carrier privileges in an object. -/
def readPermissions (element : Placed Tlv.Element) : Except (Placed RuleFlaw) Bytes :=
  let octets := element.item.value
  if octets.length = permissionsSize then .ok octets
  else .error ⟨.permissionsSize octets.length, element.place⟩

/-- The access in an object. -/
def readAccessObject (element : Placed Tlv.Element) : Except (Placed RuleFlaw) Access := do
  let children ← childrenIn .access element
  require (children ≠ []) ⟨.emptyAccess, element.place⟩
  let apdu ← readChild Objects.apduAccess children readApduAccess
  let nfc ← readChild Objects.nfcAccess children readNfcAccess
  let permissions ← readChild Objects.permissions children readPermissions
  .ok ⟨apdu, nfc, permissions⟩

/-! ## The rule -/

/-- The rule that octets encode, or a flaw at its place in them. -/
def Rule.read (octets : Bytes) : Except (Placed RuleFlaw) Rule := do
  let (outer, rest) ← (Tlv.readElement octets).mapError fun flaw =>
    ⟨.unreadable flaw, [flaw.offset]⟩
  -- the flaws of the whole object are at its start; octets behind it are a flaw where they begin
  require (outer.tag = Objects.rule) ⟨.otherTag outer.tag, []⟩
  require (rest = []) ⟨.trailing, [(outer.size : Int)]⟩
  let children ← childrenIn .rule ⟨outer, []⟩
  let reference ← childOr ⟨.missingReference, []⟩ Objects.reference children
  let access ← childOr ⟨.missingAccess, []⟩ Objects.access children
  -- both children are there before either is looked into
  let reference ← readReferenceObject reference
  let access ← readAccessObject access
  .ok ⟨reference, access⟩

/-- The rule that octets encode, or a flaw at its offset in them. -/
def Rule.decode (octets : Bytes) : Except (Located RuleFlaw) Rule :=
  (Rule.read octets).mapError Placed.located

/-- The rule that octets encode, or a flaw at the number that its place is counted to when the
octets themselves start at the number `start`. -/
def Rule.decodeAt (start : Int) (octets : Bytes) : Except (Located RuleFlaw) Rule :=
  (Rule.read octets).mapError (Placed.locatedFrom start)

end AccessRules
