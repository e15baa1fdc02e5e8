import AccessRules.Number.Text

/-!
# Reports of failures

Every failure in this library is a value that says what is wrong. A report is what callers are
shown of it: a stable code, a message, the particulars that locate it, and the reports of what
caused it. The wording that several failures share is fixed here.
-/

namespace AccessRules

/-! ## Codes and particulars -/

/-- Stable codes by which callers tell kinds of failures apart. -/
inductive Code
  | malformedTlv | malformedRecord | malformedStore | malformedField | unsupportedOperation
  | notFound | transportFailure | roundTripMismatch | scriptExecution | invalidState
  deriving DecidableEq, Repr

/-- A code as text. -/
def Code.text : Code → String
  | .malformedTlv => "MALFORMED_TLV"
  | .malformedRecord => "MALFORMED_RECORD"
  | .malformedStore => "MALFORMED_STORE"
  | .malformedField => "MALFORMED_FIELD"
  | .unsupportedOperation => "UNSUPPORTED_OPERATION"
  | .notFound => "NOT_FOUND"
  | .transportFailure => "TRANSPORT_FAILURE"
  | .roundTripMismatch => "ROUND_TRIP_MISMATCH"
  | .scriptExecution => "SCRIPT_EXECUTION"
  | .invalidState => "INVALID_STATE"

/-- What sort of failure a report is about. -/
inductive Category
  /-- A failure of access rules, one of the kinds above. -/
  | coded (code : Code)
  /-- A failure of access rules under a code of the caller's choice. -/
  | general (code : String)
  /-- An argument outside the range that an encoding has. -/
  | range
  /-- A failure elsewhere, of which only the message is known. -/
  | plain
  /-- A value that stands in the place of a failure. -/
  | value
  deriving DecidableEq, Repr

/-- Where a failure was met, as far as its kind says so. -/
structure Particulars where
  offset : Option Int := none
  recordIndex : Option Int := none
  field : Option String := none
  line : Option Int := none
  operation : Option String := none
  sw1 : Option Int := none
  sw2 : Option Int := none
  expected : Option String := none
  actual : Option String := none
  state : Option String := none
  deriving DecidableEq, Repr

/-- One failure, without its causes. -/
structure Notice where
  category : Category
  message : String
  particulars : Particulars := {}
  deriving DecidableEq, Repr

/-- A failure and what caused it, the nearest cause first. -/
structure Report where
  notice : Notice
  causes : List Notice := []
  deriving DecidableEq, Repr

namespace Report

/-- The message of the failure itself. -/
def message (report : Report) : String := report.notice.message

/-- Whether the failure is one of access rules, and not of the program or its surroundings. -/
def isOwn (report : Report) : Bool :=
  match report.notice.category with
  | .coded _ | .general _ => true
  | .range | .plain | .value => false

/-- The message of the nearest cause, unless a bare value stands in its place. -/
def causeMessage? (report : Report) : Option String :=
  match report.causes with
  | [] => none
  | cause :: _ => if cause.category = .value then none else some cause.message

/-- The report with another one as its cause. -/
def causedBy (report cause : Report) : Report :=
  { report with causes := cause.notice :: cause.causes }

/-! ## Wording -/

/-- An argument outside the range that an encoding has. -/
def range (message : String) : Report := ⟨⟨.range, message, {}⟩, []⟩

/-- A failure of which only the message is known. -/
def plain (message : String) : Report := ⟨⟨.plain, message, {}⟩, []⟩

/-- A value that stands in the place of a failure. -/
def value (text : String) : Report := ⟨⟨.value, text, {}⟩, []⟩

/-- Octets that are not a data object. -/
def tlv (reason : String) (offset : Int) : Report :=
  ⟨⟨.coded .malformedTlv, s!"{reason} at offset {numeral offset}", { offset := some offset }⟩, []⟩

/-- A data object that is not a rule, or a rule that must not be. -/
def record (reason : String) (offset : Int) : Report :=
  ⟨⟨.coded .malformedRecord, reason, { offset := some offset }⟩, []⟩

/-- Octets that are not a sequence of rules. -/
def store (reason : String) (offset index : Int) : Report :=
  ⟨⟨.coded .malformedStore, s!"{reason} (record {numeral index}, offset {numeral offset})",
    { offset := some offset, recordIndex := some index }⟩, []⟩

/-- An argument in a script, which may stand on a known line. -/
def field (name reason : String) (line : Option Int) : Report :=
  let place := match line with
    | some n => s!"line {numeral n}: "
    | none => ""
  ⟨⟨.coded .malformedField, s!"{place}{name}: {reason}",
    { field := some name, line := line }⟩, []⟩

/-- A line of a script that begins with an unknown word. -/
def operation (name : String) (line : Option Int) : Report :=
  let message := match line with
    | some n => s!"line {numeral n}: unsupported operation '{name}'"
    | none => s!"Unsupported operation '{name}'"
  ⟨⟨.coded .unsupportedOperation, message, { operation := some name, line := line }⟩, []⟩

/-- A rule or an application that is not there. -/
def notFound (message : String) : Report := ⟨⟨.coded .notFound, message, {}⟩, []⟩

/-- A command that the card refused or never received, with the status word it was answered. -/
def transport (message : String) (sw1 sw2 : Int) : Report :=
  ⟨⟨.coded .transportFailure, message, { sw1 := some sw1, sw2 := some sw2 }⟩, []⟩

/-- A record that came back changed, with the digits of both sides. -/
def mismatch (index : Int) (expected actual : Option String) (source : String) : Report :=
  let place := numeral index
  let wanted := expected.getD "<none>"
  let found := actual.getD "<none>"
  ⟨⟨.coded .roundTripMismatch,
    s!"Restored {source} differs from export at record {place}: expected {wanted}, got {found}",
    { recordIndex := some index, expected := expected, actual := actual }⟩, []⟩

/-- A replay that stopped at a line for a reason. -/
def script (line : Int) (reason : String) : Report :=
  ⟨⟨.coded .scriptExecution, s!"Script failed at line {numeral line}: {reason}",
    { line := some line }⟩, []⟩

/-- An action that the present state does not allow. -/
def state (name action : String) : Report :=
  ⟨⟨.coded .invalidState, s!"Cannot {action} in state '{name}'", { state := some name }⟩, []⟩

/-- A failure of access rules under a code of the caller's choice. -/
def general (code message : String) : Report := ⟨⟨.general code, message, {}⟩, []⟩

end Report

end AccessRules
