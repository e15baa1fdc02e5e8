import AccessRules.Command.Arguments
import AccessRules.Command.Files
import AccessRules.Command.Help
import AccessRules.Outline.Basic
import AccessRules.RoundTrip
import AccessRules.Text.Blank
import AccessRules.Text.Quoted

/-!
# Commands

The commands of the command line as functions of their arguments and of the texts of the files that
they read. A failure of access rules is a message and an exit code; any other failure is handed on.
-/

namespace AccessRules.Command

/-! ## What a command prints -/

/-- How a command is to print. -/
structure Context where
  format : Option String := none
  verbose : Bool := false
  /-- The label in scripts that are printed. -/
  target : Option String := none
  deriving DecidableEq, Repr

/-- What a command has printed, and its exit code or the failure that it hands on. -/
structure Outcome where
  outputs : List String
  errors : List String
  exit : Except Report Nat

/-- A command that is done. -/
def done (outputs : List String) : Outcome := ⟨outputs, [], .ok 0⟩

/-- A command that ends with a message. -/
def refuse (message : String) : Outcome := ⟨[], [message], .ok 1⟩

/-- A command that fails after some messages. -/
def failWith (context : Context) (outputs errors : List String) (report : Report) : Outcome :=
  if report.isOwn then
    let cause := match report.causeMessage? with
      | some message => if context.verbose then ["  caused by: " ++ message] else []
      | none => []
    ⟨outputs, errors ++ ("Error: " ++ report.message) :: cause, .ok 1⟩
  else ⟨outputs, errors, .error report⟩

/-- How many rules there are and a text about them, as an object with two members. -/
def summary (rules : Nat) (name text : String) : String :=
  "\x7b\n  \"records\": " ++ toString rules ++ ",\n  " ++ Text.quote name ++ ": " ++
    Text.quote text ++ "\n\x7d"

/-- Whether the format asked for is the one of `summary`. -/
def Context.isJson (context : Context) : Bool := context.format = some "json"

/-- The octets of digits between which blanks and colons may stand. -/
def readDigits (text : String) : Option Bytes :=
  Hex.decode? (String.ofList (text.toList.filter fun c => !(Text.isBlank c || c = ':')))

/-- Goes on with the text of a file. -/
def withFile (readFile : ReadFile) (path : String) (next : String → Outcome) : Outcome :=
  match readFile path with
  | .ok text => next text
  | .error flaw => refuse ("Cannot read " ++ path ++ ": " ++ flaw.message path)

/-! ## The commands -/

/-- What a replay without a transport starts from. -/
def start : Replay.State Unit := { store := Store.empty, transport := () }

/-- Replays a script on an empty store. -/
def replay (script : String) :
    Except (Script.Numbered (Replay.Reason Empty)) Replay.Progress × Replay.State Unit :=
  (Replay.run none script).runFrom start

/-- Prints the encodings of the rules that a script makes. -/
def encode (context : Context) (script : String) : Outcome :=
  let (outcome, state) := replay script
  let shown := if context.verbose then state.output else []
  match outcome with
  | .error error => failWith context shown [] (Replay.report Empty.elim error)
  | .ok progress =>
    let shown := shown ++
      if context.verbose then [s!"Replayed {progress.executed} operation(s)"] else []
    match Canonical.encode state.store.rules with
    | .error flaw => ⟨shown, [], .error flaw.report⟩
    | .ok octets =>
      if context.isJson then
        done (shown ++ [summary state.store.size "hex" (Hex.encode octets)])
      else done (shown ++ [Script.octetsWord octets])

/-- Prints the script that restores encoded rules. -/
def decode (context : Context) (digits : String) : Outcome :=
  match readDigits digits with
  | none => refuse "Invalid hex input"
  | some octets =>
    match Canonical.decodeStore octets with
    | .error error => failWith context [] [] error.report
    | .ok store =>
      let script := Script.print context.target false store.rules
      if context.isJson then done [summary store.size "script" script]
      else done [Text.trimEnd script]

/-- Checks that the rules that a script makes survive a round trip. -/
def verify (context : Context) (script : String) : Outcome :=
  let (outcome, state) := replay script
  match outcome with
  | .error error => failWith context [] [] (Replay.report Empty.elim error)
  | .ok _ =>
    let options : RoundTrip.Options Unit Empty := { target := context.target }
    match ((RoundTrip.run options).runFrom { work := state }).1 with
    | .error error =>
      let place := match error with
        | .mismatch index _ _ _ => [s!"Round-trip failed at record {index}"]
        | _ => []
      failWith context [] place (error.report Empty.elim)
    | .ok result =>
      done (s!"Round-trip verified ({result.rules} rules)" ::
        if context.verbose then ["Canonical: " ++ Hex.encode result.canonical] else [])

/-- Prints the outline of data objects. -/
def dump (digits : String) : Outcome :=
  match readDigits digits with
  | none => refuse "Invalid hex input"
  | some [] => done ["(no data)"]
  | some octets =>
    match Outline.render octets with
    | .ok text => done [Text.trimEnd text]
    | .error flaw => ⟨[], [], .error flaw.report⟩

/-- Runs a command with its arguments. -/
def run (context : Context) (readFile : ReadFile) (command : String) (arguments : List String) :
    Outcome :=
  let path := arguments.head?.getD ""
  let digits := String.join arguments
  match command with
  | "encode" =>
    if path = "" then refuse "Usage: ara-m encode <script>"
    else withFile readFile path (encode context)
  | "decode" =>
    if arguments = [] then refuse "Usage: ara-m decode <hex>" else decode context digits
  | "verify" =>
    if path = "" then refuse "Usage: ara-m verify <script>"
    else withFile readFile path (verify context)
  | "dump" =>
    if arguments = [] then refuse "Usage: ara-m dump <hex>" else dump digits
  | _ => refuse s!"Unknown command '{command}'"

/-! ## The command line -/

/-- What the program prints on either channel, and its exit code. -/
structure Printed where
  out : String := ""
  err : String := ""
  code : Nat := 0
  deriving DecidableEq, Repr

/-- Messages as lines. -/
def asLines (messages : List String) : String :=
  String.join (messages.map fun message => message ++ "\n")

/-- What is printed for an outcome. -/
def Outcome.printed (outcome : Outcome) : Printed :=
  match outcome.exit with
  | .ok code => ⟨asLines outcome.outputs, asLines outcome.errors, code⟩
  | .error report =>
    ⟨asLines outcome.outputs, asLines (outcome.errors ++ ["Error: " ++ report.message]), 1⟩

/-- What the program prints for its arguments. -/
def commandLine (readFile : ReadFile) (arguments : List String) : Printed :=
  match readArguments arguments with
  | .error flaw => { err := asLines ["Error: " ++ flaw.message], code := 1 }
  | .ok ⟨options, positionals⟩ =>
    if options.help then { out := asLines [help] }
    else if options.version then { out := asLines [version] }
    else
      match positionals with
      | [] | "" :: _ => { out := asLines [help], code := 1 }
      | command :: arguments =>
        let context := ⟨options.format, options.verbose, options.target⟩
        (run context readFile command arguments).printed

end AccessRules.Command
