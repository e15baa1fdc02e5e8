import AccessRules.Canonical
import AccessRules.Script.Basic
import AccessRules.Transport

/-!
# Replaying a script

A script is carried out line by line on a store, and on a transport if there is one. A line is read
only when all lines before it have been carried out. The first line that fails ends the replay, and
what the lines before it did stays done.
-/

namespace AccessRules.Replay

/-- What a replay works on: the store, the state of the transport, and the messages so far. -/
structure State (σ : Type) where
  store : Store
  transport : σ
  output : List String := []

/-- Why a line fails. -/
inductive Reason (ε : Type)
  | line (flaw : Script.Flaw)
  /-- No line before this one selects a target. -/
  | noTarget (operation : Operation)
  | unwritable (flaw : Tlv.RangeFlaw)
  | transport (error : ε)
  deriving DecidableEq, Repr

/-- The report of a reason, given that of the failures of the transport. A line that cannot be read
is reported with its number. -/
def Reason.report {ε : Type} (reportOf : ε → Report) (line : Nat) : Reason ε → Report
  | .line flaw => flaw.report (some line)
  | .noTarget operation => Report.state "no target selected" ("run " ++ operation.word)
  | .unwritable flaw => flaw.report
  | .transport error => reportOf error

/-- The report of a replay that failed. -/
def report {ε : Type} (reportOf : ε → Report) (error : Script.Numbered (Reason ε)) : Report :=
  let cause := error.item.report reportOf error.line
  (Report.script error.line cause.message).causedBy cause

/-- The target selected last: its label and, with a transport, what was selected. -/
structure Target where
  label : String
  selection : Option Selection
  deriving DecidableEq, Repr

/-- How far a replay has come: the operations carried out, and the target selected last. -/
structure Progress where
  executed : Nat := 0
  target : Option Target := none
  deriving DecidableEq, Repr

/-- The label of the target selected last. -/
def Progress.label? (progress : Progress) : Option String := progress.target.map Target.label

variable {σ ε : Type}

/-! ## One operation -/

/-- A step of the transport. -/
def onTransport {α : Type} (step : Step σ ε α) : Step (State σ) (Reason ε) α :=
  (step.mapError Reason.transport).within State.transport fun state transport =>
    { state with transport := transport }

/-- Changes the store. -/
def changeStore (change : Store → Store) : Step (State σ) (Reason ε) Unit :=
  modify fun state => { state with store := change state.store }

/-- Gives out a message. -/
def say (message : String) : Step (State σ) (Reason ε) Unit :=
  modify fun state => { state with output := state.output ++ [message] }

/-- The encodings of some rules. -/
def encoded (outcome : Except Tlv.RangeFlaw Bytes) : Step (State σ) (Reason ε) Bytes :=
  Step.lift (outcome.mapError Reason.unwritable)

/-- The message that shows what rules there are. -/
def snapshotMessage (octets : Bytes) : String := "# " ++ Script.octetsWord octets

/-- Selects a target by its label. -/
def selectTarget (transport : Option (Transport σ ε)) (label : String) :
    Step (State σ) (Reason ε) Target :=
  match transport with
  | none => return ⟨label, none⟩
  | some transport => do
    let selection ← onTransport (transport.select label)
    return ⟨label, some selection⟩

/-- The target selected last, which an operation needs. -/
def needTarget (operation : Operation) : Option Target → Step (State σ) (Reason ε) Target
  | some target => return target
  | none => throw (.noTarget operation)

/-- What is done on the transport if the target was selected there, and without it otherwise. -/
def mirrored {α : Type} (transport : Option (Transport σ ε)) (target : Target)
    (there : Transport σ ε → Selection → Step (State σ) (Reason ε) α)
    (here : Step (State σ) (Reason ε) α) : Step (State σ) (Reason ε) α :=
  match transport, target.selection with
  | some transport, some selection => there transport selection
  | _, _ => here

/-- The encodings of the rules in the store. -/
def encodedStore : Step (State σ) (Reason ε) Bytes := do
  let state ← get
  encoded (Canonical.encode state.store.rules)

/-- Carries out an operation on the target selected last; the result is the target selected now.
The transport goes first, so that a failure there leaves the store as it was. -/
def execute (transport : Option (Transport σ ε)) (last : Option Target) :
    Operation → Step (State σ) (Reason ε) Target
  | .selectTarget label => selectTarget transport label
  | .deleteAll => do
    let target ← needTarget .deleteAll last
    -- the store follows only when the transport has not failed
    mirrored transport target (fun there selection => onTransport (there.deleteAll selection))
      (pure ())
    changeStore fun _ => Store.empty
    return target
  | .storeRule rule => do
    let target ← needTarget (.storeRule rule) last
    mirrored transport target
      (fun there selection => do
        let octets ← encoded rule.encode
        onTransport (there.send selection octets))
      (pure ())
    changeStore (·.insert rule)
    return target
  | .readAll => do
    let target ← needTarget .readAll last
    let octets ← mirrored transport target
      (fun there selection => onTransport (there.readAll selection)) encodedStore
    say (snapshotMessage octets)
    return target

/-! ## All lines -/

/-- Carries out one line. -/
def line (transport : Option (Transport σ ε)) (progress : Progress) (text : String) :
    Step (State σ) (Reason ε) Progress := do
  match ← Step.lift ((Operation.parse? text).mapError Reason.line) with
  | none => return progress
  | some operation =>
    let target ← execute transport progress.target operation
    return ⟨progress.executed + 1, some target⟩

/-- Carries out lines one after the other. -/
def lines (transport : Option (Transport σ ε)) (progress : Progress) :
    List (Script.Numbered String) → Step (State σ) (Script.Numbered (Reason ε)) Progress
  | [] => return progress
  | ⟨number, text⟩ :: rest => do
    let progress ← (line transport progress text).mapError fun reason => ⟨number, reason⟩
    lines transport progress rest

/-- Replays a script. -/
def run (transport : Option (Transport σ ε)) (script : String) :
    Step (State σ) (Script.Numbered (Reason ε)) Progress :=
  lines transport {} (Script.lines script)

end AccessRules.Replay
