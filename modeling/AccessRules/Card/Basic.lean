import AccessRules.Step
import AccessRules.Tlv.Flaw

/-!
# Cards

A card answers commands, octets for octets, and changes as it does so. It may also fail to answer.
What a card is made of is left open: an in-memory card and a recording are cards, and so is any
other machine that answers.
-/

namespace AccessRules

/-- Why a command is not answered. -/
inductive Rejection
  /-- A failure of which only the message is known. -/
  | plain (message : String)
  /-- A bare value, as text, that stands in the place of a failure. -/
  | value (text : String)
  /-- The data of the command, or what the card holds, are no data objects. -/
  | unreadable (flaw : Located Tlv.Flaw)
  /-- The answer has no encoding. -/
  | unwritable (flaw : Tlv.RangeFlaw)
  deriving DecidableEq, Repr

/-- The report of a rejection. -/
def Rejection.report : Rejection → Report
  | .plain message => Report.plain message
  | .value text => Report.value text
  | .unreadable flaw => Tlv.Flaw.report flaw
  | .unwritable flaw => flaw.report

/-- A card with states `σ`: what it identifies itself as, and how it answers a command. -/
structure Card (σ : Type) where
  atr : Bytes
  transmit : Bytes → Step σ Rejection Bytes

end AccessRules
