import AccessRules.Replay

/-!
# Round trips

A round trip shows that a store survives being written out as a script and replayed. It exports the
store, clears it, restores it from the script and compares the outcome with what was exported. The
steps come in this order; after the last one, or a failure, another round trip can begin.
-/

namespace AccessRules.RoundTrip

/-! ## Where a round trip stands -/

/-- What an export captures: the script, and the encodings of the rules that it must bring back. -/
structure Snapshot where
  script : String
  baseline : Bytes
  deriving DecidableEq, Repr

/-- The step that a round trip has come through since its export. -/
inductive Stage
  | exported | cleared | restored | verified | failed
  deriving DecidableEq, Repr

/-- Where a round trip stands. From the first export on there is a snapshot. -/
inductive Position
  | idle
  | after (stage : Stage) (snapshot : Snapshot)
  deriving DecidableEq, Repr

/-- The name of a position. -/
def Position.name : Position → String
  | .idle => "idle"
  | .after .exported _ => "exported"
  | .after .cleared _ => "cleared"
  | .after .restored _ => "restored"
  | .after .verified _ => "verified"
  | .after .failed _ => "failed"

/-- The snapshot of the last export. -/
def Position.snapshot? : Position → Option Snapshot
  | .idle => none
  | .after _ snapshot => some snapshot

/-- The same round trip, failed. -/
def Position.fail : Position → Position
  | .idle => .idle
  | .after _ snapshot => .after .failed snapshot

/-- Whether another round trip can begin. -/
def Position.isOver : Position → Bool
  | .idle | .after .verified _ | .after .failed _ => true
  | .after .exported _ | .after .cleared _ | .after .restored _ => false

/-- What a round trip works on. -/
structure State (σ : Type) where
  position : Position := .idle
  work : Replay.State σ

/-- How a round trip is carried out: on which transport besides the store, and which target its
script names. -/
structure Options (σ ε : Type) where
  transport : Option (Transport σ ε) := none
  target : Option String := none

/-- What a round trip has shown: how many rules there are, the script, and their encodings. -/
structure Outcome where
  rules : Nat
  script : String
  canonical : Bytes
  deriving DecidableEq, Repr

/-! ## Failures -/

/-- Where something that is compared was read from. -/
inductive Source
  | store | card
  deriving DecidableEq, Repr

/-- The name of a source. -/
def Source.name : Source → String
  | .store => "store"
  | .card => "card"

/-- Why a step fails. -/
inductive Error (ε : Type)
  /-- The position does not allow the action. -/
  | misplaced (position : Position) (action : String)
  | unwritable (flaw : Tlv.RangeFlaw)
  | script (error : Script.Numbered (Replay.Reason ε))
  /-- What is to be compared is no sequence of rules. -/
  | cut (error : Canonical.CutError)
  /-- A rule came back changed, missing or out of nothing. -/
  | mismatch (index : Nat) (expected actual : Option Bytes) (source : Source)
  | transport (error : ε)
  deriving DecidableEq, Repr

/-- The report of a failure, given that of the failures of the transport. -/
def Error.report {ε : Type} (reportOf : ε → Report) : Error ε → Report
  | .misplaced position action => Report.state position.name action
  | .unwritable flaw => flaw.report
  | .script error => Replay.report reportOf error
  | .cut error => error.report
  | .mismatch index expected actual source =>
    Report.mismatch index (expected.map Hex.encode) (actual.map Hex.encode) source.name
  | .transport error => reportOf error

variable {σ ε : Type}

/-! ## Steps -/

/-- A step of a round trip. -/
abbrev Trip (σ ε : Type) := Step (State σ) (Error ε)

/-- Moves to another position. -/
def moveTo (position : Position) : Trip σ ε Unit :=
  modify fun state => { state with position := position }

/-- A step of the transport. -/
def onTransport {α : Type} (step : Step σ ε α) : Trip σ ε α :=
  (step.mapError Error.transport).within (fun state => state.work.transport) fun state transport =>
    { state with work := { state.work with transport := transport } }

/-- Fails unless two strings of octets are the same rules in a row. -/
def same (expected actual : Bytes) (source : Source) : Except (Error ε) Unit := do
  match ← (Canonical.mismatch? expected actual).mapError Error.cut with
  | none => .ok ()
  | some index =>
    let wanted ← (Canonical.cut expected).mapError Error.cut
    let found ← (Canonical.cut actual).mapError Error.cut
    .error (.mismatch index wanted[index]? found[index]? source)

/-- A step whose failure ends the round trip. -/
def orFail {α : Type} (step : Trip σ ε α) : Trip σ ε α :=
  step.onFailure fun state => { state with position := state.position.fail }

/-- Captures the store. -/
def exportStore (options : Options σ ε) : Trip σ ε Snapshot := do
  let state ← get
  Step.require state.position.isOver (.misplaced state.position "export")
  let rules := state.work.store.rules
  let baseline ← Step.lift ((Canonical.encode rules).mapError Error.unwritable)
  let snapshot := ⟨Script.print options.target false rules, baseline⟩
  moveTo (.after .exported snapshot)
  return snapshot

/-- Empties the store. -/
def clear : Trip σ ε Unit := do
  let state ← get
  match state.position with
  | .after .exported snapshot =>
    set { state with
      position := .after .cleared snapshot
      work := { state.work with store := Store.empty } }
  | position => throw (.misplaced position "clear")

/-- Replays the script of the snapshot. -/
def restore (options : Options σ ε) : Trip σ ε Replay.Progress := do
  let state ← get
  match state.position with
  | .after .cleared snapshot =>
    let replay := (Replay.run options.transport snapshot.script).mapError Error.script
    let progress ← orFail (replay.within State.work fun state work => { state with work := work })
    moveTo (.after .restored snapshot)
    return progress
  | position => throw (.misplaced position "restore")

/-- Compares what the card holds with what was exported. -/
def verifyCard (transport : Transport σ ε) (label : String) (baseline : Bytes) :
    Trip σ ε Unit := do
  let selection ← onTransport (transport.select label)
  let octets ← onTransport (transport.readAll selection)
  Step.lift (same baseline octets .card)

/-- Compares the store, and what the card holds if there is one, with what was exported. -/
def verify (options : Options σ ε) : Trip σ ε Outcome := do
  let state ← get
  match state.position with
  | .after .restored snapshot =>
    let canonical ← Step.lift
      ((Canonical.encode state.work.store.rules).mapError Error.unwritable)
    orFail do
      Step.lift (same snapshot.baseline canonical .store)
      match options.transport with
      | none => pure ()
      | some transport =>
        verifyCard transport (options.target.getD Script.defaultTarget) snapshot.baseline
    moveTo (.after .verified snapshot)
    return ⟨state.work.store.size, snapshot.script, canonical⟩
  | position => throw (.misplaced position "verify")

/-- All steps from an export on. -/
def run (options : Options σ ε) : Trip σ ε Outcome := do
  let _ ← exportStore options
  clear
  let _ ← restore options
  verify options

end AccessRules.RoundTrip
