/-!
# Tags of the data objects of a rule

A rule is one `REF-AR-DO`. It holds a `REF-DO`, which says whom the rule is about, and an `AR-DO`,
which says what they may do.
-/

namespace AccessRules.Objects

/-- Identifier of one application on the secure element. -/
def aidRef : Nat := 0x4f

/-- Every application on the secure element; always empty. -/
def anyAidRef : Nat := 0xc0

/-- Certificate hash of the device application. -/
def deviceAppIdRef : Nat := 0xc1

/-- Package name of the device application. -/
def packageRef : Nat := 0xca

/-- Access to commands. -/
def apduAccess : Nat := 0xd0

/-- Access to contactless events. -/
def nfcAccess : Nat := 0xd1

/-- Carrier privileges. -/
def permissions : Nat := 0xdb

/-- The reference of a rule. -/
def reference : Nat := 0xe1

/-- A rule. -/
def rule : Nat := 0xe2

/-- The access that a rule grants or denies. -/
def access : Nat := 0xe3

/-- The tags above under their customary names. -/
def named : List (String × Nat) :=
  [("AID_REF_DO", aidRef), ("AID_REF_EMPTY_DO", anyAidRef),
    ("DEV_APP_ID_REF_DO", deviceAppIdRef), ("PKG_REF_DO", packageRef), ("REF_DO", reference),
    ("REF_AR_DO", rule), ("AR_DO", access), ("APDU_AR_DO", apduAccess), ("NFC_AR_DO", nfcAccess),
    ("PERM_AR_DO", permissions)]

end AccessRules.Objects
