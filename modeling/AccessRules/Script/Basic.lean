import AccessRules.Applet.Objects
import AccessRules.Script.Options
import AccessRules.Text.Pieces

/-!
# Restore scripts

A script is a text with one operation on a line. Blank lines and lines that begin with `#` say
nothing. Replaying the script that is printed for some rules selects the applet, deletes what it
holds and stores the rules again.
-/

namespace AccessRules

/-- What one line of a script does. -/
inductive Operation
  | selectTarget (label : String)
  | deleteAll
  | storeRule (rule : Rule)
  | readAll
  deriving DecidableEq, Repr

namespace Operation

/-- The word that begins the line of an operation. -/
def word : Operation → String
  | .selectTarget _ => "select-target"
  | .deleteAll => "delete-all"
  | .storeRule _ => Script.storeRuleWord
  | .readAll => "read-all"

/-- The words of an operation. -/
def words : Operation → List String
  | .selectTarget label => [(selectTarget label).word, label]
  | .storeRule rule => (storeRule rule).word :: Script.ruleWords rule
  | operation => [operation.word]

/-- The line of an operation. -/
def print (operation : Operation) : String := " ".intercalate operation.words

/-- Fails if an operation without arguments has some. -/
def noArguments (operation : Operation) (arguments : List String) :
    Except Script.Flaw Operation :=
  if arguments = [] then .ok operation
  else .error (.field operation.word (.arguments arguments))

/-- The operation that a first word and its arguments make. -/
def ofWords (first : String) (arguments : List String) : Except Script.Flaw Operation :=
  if first = "select-target" then
    match arguments with
    | [label] => .ok (.selectTarget label)
    | _ => .error (.field first .notOneLabel)
  else if first = "delete-all" then noArguments .deleteAll arguments
  else if first = "read-all" then noArguments .readAll arguments
  else if first = Script.storeRuleWord then (Script.readRule arguments).map .storeRule
  else .error (.unsupported first)

/-- The operation on a line, if the line says anything. -/
def parse? (line : String) : Except Script.Flaw (Option Operation) :=
  match Text.words line with
  | [] => .ok none
  | first :: arguments =>
    if first.toList.head? = some '#' then .ok none
    else (ofWords first arguments).map some

end Operation

namespace Script

/-! ## Printing -/

/-- The label in scripts that name no other. -/
def defaultTarget : String := Applet.label

/-- The operations that restore some rules. -/
def restore (target : Option String) (readBack : Bool) (rules : List Rule) : List Operation :=
  .selectTarget (target.getD defaultTarget) :: .deleteAll :: rules.map .storeRule ++
    if readBack then [.readAll] else []

/-- The text of some operations. -/
def ofOperations (operations : List Operation) : String :=
  String.join (operations.map fun operation => operation.print ++ "\n")

/-- The script that restores some rules. -/
def print (target : Option String) (readBack : Bool) (rules : List Rule) : String :=
  ofOperations (restore target readBack rules)

/-! ## Parsing -/

/-- Numbers the items of a list from `line` on. -/
def numberFrom {α : Type} (line : Nat) : List α → List (Numbered α)
  | [] => []
  | item :: items => ⟨line, item⟩ :: numberFrom (line + 1) items

/-- The lines of a text with their numbers. -/
def lines (text : String) : List (Numbered String) := numberFrom 1 (Text.lines text)

/-- The operations on some lines, or the first line that is none and why. -/
def parseLines : List (Numbered String) →
    Except (Numbered Flaw) (List (Numbered Operation))
  | [] => .ok []
  | ⟨line, text⟩ :: lines => do
    match ← (Operation.parse? text).mapError fun flaw => ⟨line, flaw⟩ with
    | none => parseLines lines
    | some operation => do
      let operations ← parseLines lines
      .ok (⟨line, operation⟩ :: operations)

/-- The operations of a script, or the first line that is none and why. -/
def parse (text : String) : Except (Numbered Flaw) (List (Numbered Operation)) :=
  parseLines (lines text)

example : Text.lines (print none true []) =
    ["select-target ADF.ARA-M", "delete-all", "read-all", ""] := by decide +kernel

end Script

end AccessRules
