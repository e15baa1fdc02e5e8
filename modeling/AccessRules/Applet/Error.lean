import AccessRules.Applet.Status
import AccessRules.Canonical
import AccessRules.Card.Basic

/-!
# What can go wrong with the applet

A command may not reach the card, the card may refuse it, and what the card answers may not be
what was asked for.
-/

namespace AccessRules

/-- What is asked of the applet. -/
inductive Request
  | select (label : String)
  | storeData
  | getAll
  | getNext
  | getConfig
  deriving DecidableEq, Repr

/-- The customary name of a request. -/
def Request.name : Request → String
  | .select label => "SELECT " ++ label
  | .storeData => "STORE DATA"
  | .getAll => "GET DATA [All]"
  | .getNext => "GET DATA [Next]"
  | .getConfig => "GET DATA [Config]"

/-- Why something asked of the applet fails. -/
inductive AppletError
  /-- No application is known under the label. -/
  | unknownLabel (label : String)
  /-- The card has no such application. -/
  | notOnCard (label : String) (aid : Bytes)
  | undelivered (rejection : Rejection)
  | refused (request : Request) (sw1 sw2 : UInt8)
  /-- The data of a command are too long for one command. -/
  | longCommand (size : Nat)
  | unwritable (flaw : Tlv.RangeFlaw)
  | unreadable (flaw : Located Tlv.Flaw)
  /-- What is to be stored is no sequence of rules. -/
  | cut (error : Canonical.CutError)
  /-- The answer is another data object than the rules. -/
  | otherAnswer (tag : Nat)
  /-- The answer goes on after its announced size. -/
  | longAnswer (size : Nat)
  /-- The answer stops before its announced size. -/
  | noData (sw1 sw2 : UInt8)
  | noVersion (sw1 sw2 : UInt8)
  deriving DecidableEq, Repr

/-- The report of a failure. -/
def AppletError.report : AppletError → Report
  | .unknownLabel label => Report.notFound s!"Unknown application '{label}'"
  | .notOnCard label aid =>
    Report.notFound ("Application " ++ label ++ " (" ++ Hex.encode aid ++ ") not found on card")
  | .undelivered rejection =>
    (Report.transport ("Transmit failed: " ++ rejection.report.message) 0 0).causedBy
      rejection.report
  | .refused request sw1 sw2 =>
    let first : Int := sw1.toNat
    let second : Int := sw2.toNat
    Report.transport (request.name ++ " failed - " ++ Applet.describe first second) first second
  | .longCommand size =>
    Report.range s!"STORE DATA command data must not exceed 255 bytes, got {size}"
  | .unwritable flaw => flaw.report
  | .unreadable flaw => Tlv.Flaw.report flaw
  | .cut error => error.report
  | .otherAnswer tag =>
    Report.store ("Expected Response-ALL-REF-AR-DO (FF40), got tag " ++ Hex.numberUpper tag) 0 0
  | .longAnswer size => Report.store "Trailing bytes after Response-ALL-REF-AR-DO" size 0
  | .noData sw1 sw2 =>
    Report.transport (Request.getNext.name ++ " returned no data") sw1.toNat sw2.toNat
  | .noVersion sw1 sw2 =>
    Report.transport (Request.getConfig.name ++ " response lacks an interface version")
      sw1.toNat sw2.toNat

end AccessRules
