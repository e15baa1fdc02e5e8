import AccessRules.Command.Basic

/-!
# The program

Reads the arguments and the file that a command names, and prints.
-/

namespace AccessRules.Command

/-- The number that the system gives to a failure; it may come with its sign turned. -/
def systemNumber (code : UInt32) : Nat := min code.toNat (-code).toNat

/-- Why a file cannot be read. -/
def flawOf (error : IO.Error) : FileFlaw :=
  let other := FileFlaw.other (toString error)
  match error with
  | .noFileOrDirectory .. => .missing
  | .inappropriateType _ code _ =>
    match systemNumber code with
    | 20 => .notDirectory
    | 21 => .directory
    | _ => other
  | .invalidArgument _ code _ => if systemNumber code = 36 then .longName else other
  | _ => other

/-- The text of a file, or why it cannot be read. -/
def readText (path : String) : IO (Except FileFlaw String) := do
  try
    let text ← IO.FS.readFile path
    return .ok text
  catch error => return .error (flawOf error)

/-- The path that the arguments name, where the command has one. -/
def pathNamed (arguments : List String) : Option String :=
  match readArguments arguments with
  | .ok ⟨_, "encode" :: path :: _⟩ | .ok ⟨_, "verify" :: path :: _⟩ => some path
  | _ => none

/-- Runs the program and gives its exit code. -/
def program (arguments : List String) : IO UInt32 := do
  let file ← match pathNamed arguments with
    | some path => readText path
    | none => pure (.ok "")
  let printed := commandLine (fun _ => file) arguments
  IO.print printed.out
  IO.eprint printed.err
  return UInt32.ofNat printed.code

end AccessRules.Command

/-- The program. -/
def main (arguments : List String) : IO UInt32 := AccessRules.Command.program arguments
