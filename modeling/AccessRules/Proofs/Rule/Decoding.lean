import AccessRules.Proofs.Rule.Children
import AccessRules.Proofs.Rule.Fields

/-!
# Reading the halves of a rule

A rule is read from its reference and its access.  Each half is read from the encoding of its
objects in any order, and only if it is valid:

1. **Fields** — a child is read for each field, from the octets that are written for it
   (`readChild_apduAccess_eq_ok_iff` and the others).  The package name is the exception, which is
   read from any octets that spell it (`Spells`).

2. **Objects** — the children of a half are known, up to their order, from what is looked up among
   them (`Reference.perm_objectsWith_iff`, `Access.perm_objects_iff`).

3. **Halves** — together these say what a half is read from (`readReferenceObject_eq_ok_iff`,
   `readAccessObject_eq_ok_iff`).  Valid references have different encodings
   (`Reference.eq_of_encodeAll`).
-/

namespace AccessRules

/-! ## The objects of a rule -/

/-- The children of a reference whose package name is spelled by these octets. -/
def Reference.objectsWith (reference : Reference) (spelling : Option Bytes) : List (Nat × Bytes) :=
  reference.target.object :: (Objects.deviceAppIdRef, reference.deviceAppId) ::
    (spelling.map fun octets => (Objects.packageRef, octets)).toList

/-- `Spells spelling packageName` — the low seven bits of the octets are the package name, if there
    is one. -/
def Spells (spelling : Option Bytes) (packageName : Option String) : Prop :=
  spelling.map Text.ofSevenBit = packageName

/-- A reference is written with the low octets of its package name. -/
theorem Reference.objects_eq_objectsWith (reference : Reference) :
    reference.objects = reference.objectsWith (reference.packageName.map Text.lowOctets) := by
  rw [Reference.objects, Reference.objectsWith, Option.map_map]
  rfl

/-- These octets spell the name, as its characters have seven bits. -/
theorem Reference.spells {reference : Reference} (h : reference.Valid) :
    Spells (reference.packageName.map Text.lowOctets) reference.packageName := by
  have hname := h.packageName
  unfold Spells
  cases hcase : reference.packageName with
  | none => rfl
  | some name =>
    exact congrArg some (ofSevenBit_lowOctets_packageName (hname name hcase))

/-- The objects of a reference are ones that it may hold, whatever they spell. -/
theorem Reference.holds_objectsWith (reference : Reference) (spelling : Option Bytes) :
    Container.reference.Holds (reference.objectsWith spelling) := by
  obtain ⟨target, deviceAppId, packageName⟩ := reference
  cases target <;> cases spelling <;> constructor <;>
    simp [Reference.objectsWith, Target.object, Container.allowed, Objects.aidRef,
      Objects.anyAidRef, Objects.deviceAppIdRef, Objects.packageRef]

/-- The objects of an access are ones that it may hold. -/
theorem Access.holds_objects (access : Access) : Container.access.Holds access.objects := by
  obtain ⟨apdu, nfc, permissions⟩ := access
  cases apdu <;> cases nfc <;> cases permissions <;> constructor <;>
    simp [Access.objects, Container.allowed, Objects.apduAccess, Objects.nfcAccess,
      Objects.permissions]

/-! ## The fields -/

section Fields

variable {tag : Nat} {children : List (Placed Tlv.Element)}

/-- A package name is read from any octets that spell it. -/
theorem readChild_packageName_eq_ok_iff {found : Option String} :
    readChild tag children readPackageName = .ok found ↔
      Spells ((childObjects children).lookup tag) found ∧
        ∀ name ∈ found, isPackageName name = true := by
  rw [readChild_eq_ok_iff
    (fun octets name => Text.ofSevenBit octets = name ∧ isPackageName name = true)
    fun _ _ => readPackageName_eq_ok_iff, rel_and_iff, rel_map_iff]
  rfl

/-- The access to commands is read from its own octets only. -/
theorem readChild_apduAccess_eq_ok_iff {found : Option ApduAccess} :
    readChild tag children readApduAccess = .ok found ↔
      (childObjects children).lookup tag = found.map ApduAccess.octets ∧
        ∀ apdu ∈ found, apdu.Valid := by
  rw [readChild_eq_ok_iff (fun octets apdu => octets = apdu.octets ∧ apdu.Valid)
    fun _ _ => readApduAccess_eq_ok_iff, rel_and_iff, rel_eq_iff]

/-- The access to events is read from its own octet only. -/
theorem readChild_nfcAccess_eq_ok_iff {found : Option Permission} :
    readChild tag children readNfcAccess = .ok found ↔
      (childObjects children).lookup tag = found.map fun permission => [permission.octet] := by
  rw [readChild_eq_ok_iff (fun octets permission => octets = [permission.octet])
    fun _ _ => readNfcAccess_eq_ok_iff, rel_eq_iff]

/-- Carrier privileges are read as they are, if they have the right length. -/
theorem readChild_permissions_eq_ok_iff {found : Option Bytes} :
    readChild tag children readPermissions = .ok found ↔
      (childObjects children).lookup tag = found ∧
        ∀ mask ∈ found, mask.length = permissionsSize := by
  rw [readChild_eq_ok_iff (fun octets mask => octets = mask ∧ mask.length = permissionsSize)
    fun _ _ => readPermissions_eq_ok_iff, rel_and_iff, rel_eq_iff, Option.map_id']

end Fields

/-! ## The reference -/

/-- The value of the identifier of a target, if it has one. -/
def Target.aid? : Target → Option Bytes
  | .any => none
  | .aid octets => some octets

/-- The value of the object for every application, if the target is every application. -/
def Target.anyAid? : Target → Option Bytes
  | .any => some []
  | .aid _ => none

/-- A target is read if it is within the limits and is the one of its two objects that is there. -/
theorem readTarget_eq_ok_iff {children : List (Placed Tlv.Element)} {place : Place}
    {target : Target} :
    readTarget children place = .ok target ↔
      target.Valid ∧ (childObjects children).lookup Objects.aidRef = target.aid? ∧
        (childObjects children).lookup Objects.anyAidRef = target.anyAid? := by
  rw [readTarget, ← child?_map_value, ← child?_map_value]
  generalize child? Objects.aidRef children = aid
  generalize child? Objects.anyAidRef children = anyAid
  -- a target is one of the two objects, so two of the four cases are none
  match aid, anyAid with
  | some aid, some anyAid =>
    refine ⟨nofun, fun ⟨_, haid, hany⟩ => ?_⟩
    cases target with
    | any => cases haid
    | aid octets => cases hany
  | none, some anyAid =>
    constructor
    · intro h
      simp only at h
      split at h
      · rename_i hempty
        obtain rfl := Except.ok.inj h
        exact ⟨trivial, rfl, congrArg some hempty⟩
      · cases h
    · rintro ⟨-, haid, hany⟩
      -- the empty object stands for every application only
      cases target with
      | any =>
        have hempty : anyAid.item.value = [] := Option.some.inj hany
        simp only
        rw [if_pos hempty]
      | aid octets => cases haid
  | none, none =>
    refine ⟨nofun, fun ⟨_, haid, hany⟩ => ?_⟩
    cases target with
    | any => cases hany
    | aid octets => cases haid
  | some aid, none =>
    constructor
    · intro h
      simp only at h
      split at h
      · cases h
      · rename_i hsize
        obtain rfl := Except.ok.inj h
        exact ⟨⟨fun h => hsize (Or.inl h), by omega⟩, rfl, rfl⟩
    · rintro ⟨hvalid, haid, hany⟩
      cases target with
      | any => cases hany
      | aid octets =>
        obtain rfl : aid.item.value = octets := Option.some.inj haid
        simp only
        rw [if_neg fun h => h.elim hvalid.1 (Nat.not_lt.mpr hvalid.2)]

/-- The objects of a reference are known from what is looked up among them. -/
theorem Reference.perm_objectsWith_iff {objects : List (Nat × Bytes)}
    (h : Container.reference.Holds objects) {reference : Reference} {spelling : Option Bytes} :
    objects.Perm (reference.objectsWith spelling) ↔
      objects.lookup Objects.aidRef = reference.target.aid? ∧
        objects.lookup Objects.anyAidRef = reference.target.anyAid? ∧
        objects.lookup Objects.deviceAppIdRef = some reference.deviceAppId ∧
        objects.lookup Objects.packageRef = spelling := by
  -- what is looked up in the objects that are written is each field of the reference
  have haid : (reference.objectsWith spelling).lookup Objects.aidRef = reference.target.aid? := by
    obtain ⟨target, deviceAppId, packageName⟩ := reference
    cases target <;> cases spelling <;> rfl
  have hany :
      (reference.objectsWith spelling).lookup Objects.anyAidRef = reference.target.anyAid? := by
    obtain ⟨target, deviceAppId, packageName⟩ := reference
    cases target <;> cases spelling <;> rfl
  have hdevice : (reference.objectsWith spelling).lookup Objects.deviceAppIdRef
      = some reference.deviceAppId := by
    obtain ⟨target, deviceAppId, packageName⟩ := reference
    cases target <;> rfl
  have hname : (reference.objectsWith spelling).lookup Objects.packageRef = spelling := by
    obtain ⟨target, deviceAppId, packageName⟩ := reference
    cases target <;> cases spelling <;> rfl
  constructor
  · intro hperm
    have hlookup := lookup_eq_of_perm h.distinct hperm
    rw [hlookup, hlookup, hlookup, hlookup]
    exact ⟨haid, hany, hdevice, hname⟩
  · rintro ⟨haid', hany', hdevice', hname'⟩
    apply perm_of_lookup_eq h (reference.holds_objectsWith spelling)
    intro tag hmem
    simp only [Container.allowed, List.mem_cons, List.not_mem_nil, or_false] at hmem
    rcases hmem with rfl | rfl | rfl | rfl
    · rw [haid, haid']
    · rw [hany, hany']
    · rw [hdevice, hdevice']
    · rw [hname, hname']

/-- A reference is read from the encoding of its objects in any order. -/
theorem readReferenceObject_eq_ok_iff {element : Placed Tlv.Element} {reference : Reference} :
    readReferenceObject element = .ok reference ↔
      reference.Valid ∧ ∃ spelling objects, Spells spelling reference.packageName ∧
        objects.Perm (reference.objectsWith spelling) ∧
        encodeAll objects = .ok element.item.value := by
  simp only [readReferenceObject, bind_eq_ok_iff, readTarget_eq_ok_iff, childOr_eq_ok_iff,
    require_eq_ok_iff, readChild_packageName_eq_ok_iff, Except.ok.injEq]
  constructor
  · rintro ⟨children, hread, target, ⟨hvalid, haid, hany⟩, device, hdevice, -, hsize, packageName,
      ⟨hspells, hname⟩, rfl⟩
    obtain ⟨hencode, hholds⟩ := encodeAll_of_childrenIn hread
    have hdevice' : (childObjects children).lookup Objects.deviceAppIdRef
        = some device.item.value := by
      rw [← child?_map_value, hdevice]
      rfl
    exact ⟨⟨hvalid, hsize, hname⟩, (childObjects children).lookup Objects.packageRef,
      childObjects children, hspells,
      (Reference.perm_objectsWith_iff hholds).mpr ⟨haid, hany, hdevice', rfl⟩, hencode⟩
  · rintro ⟨hvalid, spelling, objects, hspells, hperm, hencode⟩
    -- the objects are those of the reference in some order, so each child is looked up as its field
    have hholds := (reference.holds_objectsWith spelling).of_perm hperm.symm
    obtain ⟨haid, hany, hdevice, hname⟩ := (Reference.perm_objectsWith_iff hholds).mp hperm
    obtain ⟨children, hread, rfl⟩ := childrenIn_of_encodeAll hencode hholds
    rw [← child?_map_value, Option.map_eq_some_iff] at hdevice
    obtain ⟨device, hchild, hvalue⟩ := hdevice
    refine ⟨children, hread, reference.target, ⟨hvalid.target, haid, hany⟩, device, hchild, (),
      by rw [hvalue]; exact hvalid.deviceAppId, reference.packageName,
      ⟨by rw [hname]; exact hspells, hvalid.packageName⟩, by rw [hvalue]⟩

/-- The encoding of the objects of a valid reference is read as this reference. -/
theorem readReferenceObject_of_encodeAll {element : Placed Tlv.Element} {reference : Reference}
    (hvalid : reference.Valid) (h : encodeAll reference.objects = .ok element.item.value) :
    readReferenceObject element = .ok reference := by
  rw [Reference.objects_eq_objectsWith] at h
  exact readReferenceObject_eq_ok_iff.mpr
    ⟨hvalid, _, _, Reference.spells hvalid, .refl _, h⟩

/-- Valid references are told apart by their octets. -/
theorem Reference.eq_of_encodeAll {reference other : Reference} (hvalid : reference.Valid)
    (hvalid' : other.Valid) {octets : Bytes} (h : encodeAll reference.objects = .ok octets)
    (h' : encodeAll other.objects = .ok octets) : reference = other := by
  -- reading undoes writing, and both are read from the same object
  let element : Placed Tlv.Element := ⟨⟨Objects.reference, octets, 0, 0⟩, []⟩
  have hread := @readReferenceObject_of_encodeAll element reference hvalid h
  rw [@readReferenceObject_of_encodeAll element other hvalid' h'] at hread
  exact (Except.ok.inj hread).symm

/-! ## The access -/

/-- Only an access that says nothing has no objects. -/
theorem Access.objects_eq_nil_iff {access : Access} : access.objects = [] ↔ access = {} := by
  obtain ⟨apdu, nfc, permissions⟩ := access
  cases apdu <;> cases nfc <;> cases permissions <;> simp [Access.objects]

/-- The objects of an access are known from what is looked up among them. -/
theorem Access.perm_objects_iff {objects : List (Nat × Bytes)}
    (h : Container.access.Holds objects) {access : Access} :
    objects.Perm access.objects ↔
      objects.lookup Objects.apduAccess = access.apdu.map ApduAccess.octets ∧
        objects.lookup Objects.nfcAccess = access.nfc.map (fun permission => [permission.octet]) ∧
        objects.lookup Objects.permissions = access.permissions := by
  -- what is looked up in the objects that are written is each field of the access
  have hapdu : access.objects.lookup Objects.apduAccess = access.apdu.map ApduAccess.octets := by
    obtain ⟨apdu, nfc, permissions⟩ := access
    cases apdu <;> cases nfc <;> cases permissions <;> rfl
  have hnfc : access.objects.lookup Objects.nfcAccess
      = access.nfc.map fun permission => [permission.octet] := by
    obtain ⟨apdu, nfc, permissions⟩ := access
    cases apdu <;> cases nfc <;> cases permissions <;> rfl
  have hmask : access.objects.lookup Objects.permissions = access.permissions := by
    obtain ⟨apdu, nfc, permissions⟩ := access
    cases apdu <;> cases nfc <;> cases permissions <;> rfl
  constructor
  · intro hperm
    have hlookup := lookup_eq_of_perm h.distinct hperm
    rw [hlookup, hlookup, hlookup]
    exact ⟨hapdu, hnfc, hmask⟩
  · rintro ⟨hapdu', hnfc', hmask'⟩
    apply perm_of_lookup_eq h access.holds_objects
    intro tag hmem
    simp only [Container.allowed, List.mem_cons, List.not_mem_nil, or_false] at hmem
    rcases hmem with rfl | rfl | rfl
    · rw [hapdu, hapdu']
    · rw [hnfc, hnfc']
    · rw [hmask, hmask']

/-- An access is read from the encoding of its objects in any order. -/
theorem readAccessObject_eq_ok_iff {element : Placed Tlv.Element} {access : Access} :
    readAccessObject element = .ok access ↔
      access.Valid ∧ ∃ objects, objects.Perm access.objects ∧
        encodeAll objects = .ok element.item.value := by
  simp only [readAccessObject, bind_eq_ok_iff, require_eq_ok_iff,
    readChild_apduAccess_eq_ok_iff, readChild_nfcAccess_eq_ok_iff,
    readChild_permissions_eq_ok_iff, Except.ok.injEq]
  constructor
  · rintro ⟨children, hread, -, hsome, apdu, ⟨hapdu, hapduValid⟩, nfc, hnfc, permissions,
      ⟨hmask, hmaskValid⟩, rfl⟩
    obtain ⟨hencode, hholds⟩ := encodeAll_of_childrenIn hread
    have hperm : (childObjects children).Perm (Access.objects ⟨apdu, nfc, permissions⟩) :=
      (Access.perm_objects_iff hholds).mpr ⟨hapdu, hnfc, hmask⟩
    refine ⟨⟨?_, hapduValid, hmaskValid⟩, childObjects children, hperm, hencode⟩
    -- an access that says nothing has no objects, but there was a child
    intro hempty
    rw [Access.objects_eq_nil_iff.mpr hempty, List.perm_nil, childObjects,
      List.map_eq_nil_iff] at hperm
    exact hsome hperm
  · rintro ⟨hvalid, objects, hperm, hencode⟩
    have hholds := access.holds_objects.of_perm hperm.symm
    obtain ⟨hapdu, hnfc, hmask⟩ := (Access.perm_objects_iff hholds).mp hperm
    obtain ⟨children, hread, rfl⟩ := childrenIn_of_encodeAll hencode hholds
    refine ⟨children, hread, (), ?_, access.apdu, ⟨hapdu, hvalid.apdu⟩, access.nfc, hnfc,
      access.permissions, ⟨hmask, hvalid.permissions⟩, rfl⟩
    rintro rfl
    exact hvalid.present (Access.objects_eq_nil_iff.mp (List.nil_perm.mp hperm))

end AccessRules
