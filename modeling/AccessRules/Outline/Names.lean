import AccessRules.Hex

/-!
# Names of data objects

The data objects that rules, commands and answers are made of, with their customary names.
-/

namespace AccessRules.Outline

/-- The named data objects. -/
def names : List (Nat × String) :=
  [(0x4f, "AID_REF_DO"),
    (0xc0, "AID_REF_EMPTY_DO"),
    (0xc1, "DEV_APP_ID_REF_DO"),
    (0xca, "PKG_REF_DO"),
    (0xd0, "APDU_AR_DO"),
    (0xd1, "NFC_AR_DO"),
    (0xdb, "PERM_AR_DO"),
    (0xe1, "REF_DO"),
    (0xe2, "REF_AR_DO"),
    (0xe3, "AR_DO"),
    (0xe4, "DEVICE_CONFIG_DO"),
    (0xe5, "ARAM_CONFIG_DO"),
    (0xe6, "DEVICE_INTERFACE_VERSION_DO"),
    (0xe7, "BLOCK_DO"),
    (0xf0, "COMMAND_STORE_REF_AR_DO"),
    (0xf1, "COMMAND_DELETE"),
    (0xf2, "COMMAND_UPDATE_REFRESH_TAG_DO"),
    (0xf3, "COMMAND_GET"),
    (0xf4, "COMMAND_GET_ALL"),
    (0xf5, "COMMAND_GET_NEXT"),
    (0xf6, "COMMAND_GET_CLIENT_AIDS_DO"),
    (0xf7, "COMMAND_REGISTER_CLIENT_AIDS_DO"),
    (0xf8, "COMMAND_GET_DEVICE_CONFIG_DO"),
    (0xdf20, "RESPONSE_REFRESH_TAG_DO"),
    (0xdf21, "RESPONSE_ARAM_CONFIG_DO"),
    (0xff40, "RESPONSE_ALL_REF_AR_DO"),
    (0xff50, "RESPONSE_AR_DO"),
    (0xff70, "RESPONSE_ARAC_AID_DO"),
    (0xff7f, "RESPONSE_DEVICE_CONFIG_DO")]

/-- The name of the data object with a tag; an unknown one is named after the digits of its tag. -/
def nameOf (tag : Int) : String :=
  match names.find? fun entry => (entry.1 : Int) = tag with
  | some (_, name) => name
  | none => "UNKNOWN_" ++ Hex.signedUpper tag

end AccessRules.Outline
