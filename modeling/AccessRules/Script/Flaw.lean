import AccessRules.Rule.Input

/-!
# What can be wrong with a line of a script

A flaw of a line does not depend on where the line stands. Its number is added when the flaw is
reported.
-/

namespace AccessRules.Script

/-- Something on a numbered line; lines count from one. -/
structure Numbered (α : Type) where
  line : Nat
  item : α
  deriving DecidableEq, Repr

/-- The parts of an access that a rule states once. -/
inductive Part
  | apdu | nfc
  deriving DecidableEq, Repr

/-- The customary name of a part. -/
def Part.name : Part → String
  | .apdu => "APDU"
  | .nfc => "NFC"

/-- Why a word of a line cannot be what it should be. -/
inductive FieldFlaw
  | missingValue
  | repeated
  /-- The part of the access has been stated in another way. -/
  | conflict (part : Part)
  | notHex (value : String)
  | filterSize (size : Nat)
  | notPermissions (value : String)
  | unknownOption
  | required
  /-- The rule that the words describe breaks a limit. -/
  | rule (flaw : InputFlaw)
  | notOneLabel
  | arguments (words : List String)
  deriving DecidableEq, Repr

/-- The wording of a flaw. -/
def FieldFlaw.message : FieldFlaw → String
  | .missingValue => "missing value"
  | .repeated => "given more than once"
  | .conflict part => "conflicts with another " ++ part.name ++ " rule"
  | .notHex value => s!"expected hex bytes or 'empty', got '{value}'"
  | .filterSize size => s!"filter must be a multiple of 8 bytes (header + mask), got {size}"
  | .notPermissions value => s!"expected 16 hex digits, got '{value}'"
  | .unknownOption => "unknown option"
  | .required => "required"
  | .rule flaw => flaw.message
  | .notOneLabel => "expects exactly one target label"
  | .arguments words => "takes no arguments, got '" ++ " ".intercalate words ++ "'"

/-- Why a line is no operation. -/
inductive Flaw
  | field (name : String) (flaw : FieldFlaw)
  /-- The first word of the line is none that begins an operation. -/
  | unsupported (word : String)
  deriving DecidableEq, Repr

/-- The report of a flaw, with the number of the line where it is known. -/
def Flaw.report (line : Option Int) : Flaw → Report
  | .field name flaw => Report.field name flaw.message line
  | .unsupported word => Report.operation word line

end AccessRules.Script
