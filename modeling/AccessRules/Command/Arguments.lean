/-!
# Arguments of the command line

Options stand anywhere among the arguments. A long option follows two hyphens and may have its
value behind an equals sign; single letters follow one hyphen and may be run together, of which the
first that takes a value takes the rest. Two hyphens alone end the options, and one hyphen alone
is no option.
-/

namespace AccessRules.Command

/-! ## Options -/

/-- The options that are either given or not. -/
inductive Switch
  | help | version | verbose
  deriving DecidableEq, Repr

/-- The options that take a value. -/
inductive Setting
  | format | target
  deriving DecidableEq, Repr

/-- An option. -/
inductive OptionName
  | switch (switch : Switch)
  | setting (setting : Setting)
  deriving DecidableEq, Repr

/-- The option with a long name. -/
def OptionName.ofLong? : String → Option OptionName
  | "help" => some (.switch .help)
  | "version" => some (.switch .version)
  | "verbose" => some (.switch .verbose)
  | "format" => some (.setting .format)
  | "target" => some (.setting .target)
  | _ => none

/-- The option with a letter. -/
def OptionName.ofLetter? : Char → Option OptionName
  | 'h' => some (.switch .help)
  | 'v' => some (.switch .version)
  | 'f' => some (.setting .format)
  | 't' => some (.setting .target)
  | _ => none

/-- What the options say. -/
structure Options where
  help : Bool := false
  version : Bool := false
  verbose : Bool := false
  format : Option String := none
  target : Option String := none
  deriving DecidableEq, Repr

/-- The options with one more switch. -/
def Options.switchOn (options : Options) : Switch → Options
  | .help => { options with help := true }
  | .version => { options with version := true }
  | .verbose => { options with verbose := true }

/-- The options with one more setting, which replaces an earlier one. -/
def Options.put (options : Options) (value : String) : Setting → Options
  | .format => { options with format := some value }
  | .target => { options with target := some value }

/-- Why arguments cannot be read. -/
inductive ArgumentFlaw
  | unknownOption (argument : String)
  /-- A value is missing, looks like an option, or is given to a switch. -/
  | wrongValue (argument : String)
  deriving DecidableEq, Repr

/-- The wording of a flaw. -/
def ArgumentFlaw.message : ArgumentFlaw → String
  | .unknownOption argument => s!"Unknown option '{argument}'"
  | .wrongValue argument => s!"Wrong or missing value for '{argument}'"

/-! ## Letters -/

/-- How the letters of one argument end. -/
inductive Ending
  | done
  /-- The last letter takes the next argument as its value. -/
  | awaits (setting : Setting)
  /-- A hyphen among the letters ends the options; the letters behind it are no options. -/
  | closed (arguments : List String)
  deriving DecidableEq, Repr

/-- Letters as arguments of their own. The first of them that takes a value keeps the rest. -/
def separate : List Char → List String
  | [] => []
  | letter :: rest =>
    match OptionName.ofLetter? letter with
    | some (.setting _) => [String.ofList ('-' :: letter :: rest)]
    | _ => String.ofList ['-', letter] :: separate rest

/-- What the letters of one argument say. -/
def readLetters (argument : String) (options : Options) :
    List Char → Except ArgumentFlaw (Options × Ending)
  | [] => .ok (options, .done)
  | letter :: rest =>
    if letter = '-' then .ok (options, .closed (separate rest))
    else
      match OptionName.ofLetter? letter with
      | none => .error (.unknownOption argument)
      | some (.switch switch) => readLetters argument (options.switchOn switch) rest
      | some (.setting setting) =>
        if rest = [] then .ok (options, .awaits setting)
        else .ok (options.put (String.ofList rest) setting, .done)

/-! ## Arguments -/

/-- What an argument is by its form. -/
inductive Form
  | plain
  | terminator
  | long (name : String) (value : Option String)
  | short (letters : List Char)
  deriving DecidableEq, Repr

/-- The name in front of an equals sign, and the value behind it. -/
def cutAtEquals (text : List Char) : String × Option String :=
  let name := String.ofList (text.takeWhile (· ≠ '='))
  match text.dropWhile (· ≠ '=') with
  | [] => (name, none)
  | _ :: value => (name, some (String.ofList value))

/-- The form of an argument. -/
def Form.of (argument : String) : Form :=
  match argument.toList with
  | ['-', '-'] => .terminator
  | '-' :: '-' :: text => let (name, value) := cutAtEquals text; .long name value
  | '-' :: letter :: letters => .short (letter :: letters)
  | _ => .plain

/-- Whether an argument cannot be the value of the option before it. -/
def looksLikeOption (argument : String) : Bool :=
  match argument.toList with
  | '-' :: _ :: _ => true
  | _ => false

/-- What arguments say: the options, and the arguments that are none. -/
structure Arguments where
  options : Options
  positionals : List String
  deriving DecidableEq, Repr

/-- Reads arguments with the options of earlier ones; `awaited` is the option, and the argument it
stands in, whose value is the next argument. -/
def readFrom (options : Options) (awaited : Option (Setting × String)) :
    List String → Except ArgumentFlaw Arguments
  | [] =>
    match awaited with
    | none => .ok ⟨options, []⟩
    | some (_, earlier) => .error (.wrongValue earlier)
  | argument :: rest =>
    match awaited with
    | some (setting, earlier) =>
      if looksLikeOption argument then .error (.wrongValue earlier)
      else readFrom (options.put argument setting) none rest
    | none =>
      match Form.of argument with
      | .plain => do
        let found ← readFrom options none rest
        .ok ⟨found.options, argument :: found.positionals⟩
      | .terminator => .ok ⟨options, rest⟩
      | .long name value =>
        match OptionName.ofLong? name, value with
        | none, _ => .error (.unknownOption argument)
        | some (.switch switch), none => readFrom (options.switchOn switch) none rest
        | some (.switch _), some _ => .error (.wrongValue argument)
        | some (.setting setting), some value => readFrom (options.put value setting) none rest
        | some (.setting setting), none => readFrom options (some (setting, argument)) rest
      | .short letters =>
        match readLetters argument options letters with
        | .error flaw => .error flaw
        | .ok (options, .done) => readFrom options none rest
        | .ok (options, .awaits setting) => readFrom options (some (setting, argument)) rest
        | .ok (options, .closed loose) => .ok ⟨options, loose ++ rest⟩

/-- Reads the arguments of the command line. -/
def readArguments (arguments : List String) : Except ArgumentFlaw Arguments :=
  readFrom {} none arguments

example : (readArguments ["-ht", "x", "--", "-v"]).toOption =
    some ⟨{ help := true, target := some "x" }, ["-v"]⟩ := by decide +kernel

end AccessRules.Command
