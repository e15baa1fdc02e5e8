import AccessRules.Outline.Entry
import AccessRules.Outline.Names
import AccessRules.Rule.Basic
import AccessRules.Rule.Objects
import AccessRules.Text.Units

/-!
# Outlines as text

An outline is written with one data object on a line, indented by its depth. The value of an object
that is part of a rule is followed by what it means.
-/

namespace AccessRules.Outline

/-! ## Drawing up -/

/-- The entries at `depth` for the data objects in `octets` from `offset` on. A level has no more
data objects than octets unless reading goes round in circles, so `budget` of them are enough. -/
def entriesFrom (depth : Nat) (octets : Bytes) (budget : Nat) (offset : Int) :
    Except Flaw (List Entry) :=
  if octets.length ≤ offset then .ok []
  else if offset < 0 then .error (.noData offset)
  else
    match budget with
    | 0 => .error .endless
    | budget + 1 =>
      match h : readHead offset (octets.drop offset.toNat) with
      | .error flaw => .error flaw
      | .ok head =>
        let start := offset.toNat + head.size
        let value := slice octets start (start + head.length)
        have : value.length < octets.length :=
          length_slice_lt (by have := (readHead_pos h).1; omega)
            fun empty => (readHead_pos h).2 (by simp [empty])
        let inner :=
          if head.constructed then entriesFrom (depth + 1) value value.length 0 else .ok []
        let shown := if head.constructed then [] else value
        inner.bind fun inner =>
          (entriesFrom depth octets budget (start + head.length)).map fun rest =>
            ⟨depth, head.tag, shown, !inner.isEmpty⟩ :: inner ++ rest
termination_by (octets.length, budget)
decreasing_by
  · exact Prod.Lex.left _ _ this
  · exact Prod.Lex.right _ (Nat.lt_succ_self budget)

/-- The outline of octets. -/
def entries (octets : Bytes) : Except Flaw (List Entry) := entriesFrom 0 octets octets.length 0

/-! ## Values in words -/

/-- What an octet that allows or denies as a whole means. -/
def permissionWord? (octets : Bytes) : Option String :=
  match octets with
  | [octet] => (Permission.ofOctet? octet).map fun
    | .never => "never"
    | .always => "always"
  | _ => none

/-- The value with what it means behind it, if it means anything. -/
def withMeaning (octets : Bytes) : Option String → String
  | some meaning => Hex.encodeUpper octets ++ " (" ++ meaning ++ ")"
  | none => Hex.encodeUpper octets

/-- A filter as its header and its mask. -/
def filterText (filter : ApduFilter) : String :=
  Hex.encodeUpper filter.header ++ "/" ++ Hex.encodeUpper filter.mask

/-- What the access to commands means. -/
def apduMeaning? (octets : Bytes) : Option String :=
  match permissionWord? octets with
  | some word => some word
  | none =>
    (splitFilters? octets).map fun filters => "filter " ++ ", ".intercalate (filters.map filterText)

/-- The bits of a mask of eight octets that are set, from the lowest on. -/
def setBits (mask : Bytes) : List Nat := (List.range 64).filter (ofBigEndian mask).testBit

/-- What carrier privileges mean. -/
def permissionsMeaning? (octets : Bytes) : Option String :=
  if octets.length ≠ 8 then none
  else if setBits octets = [] then some "none"
  else some ("bits " ++ ", ".intercalate ((setBits octets).map toString))

/-- The value of a data object as text. -/
def valueText (tag : Int) (value : Bytes) : String :=
  if tag = Objects.apduAccess then withMeaning value (apduMeaning? value)
  else if tag = Objects.nfcAccess then withMeaning value (permissionWord? value)
  else if tag = Objects.permissions then withMeaning value (permissionsMeaning? value)
  else if tag = Objects.packageRef then
    Hex.encodeUpper value ++ " [" ++ Text.ofSevenBit value ++ "]"
  else if value = [] then "(empty)"
  else Hex.encodeUpper value

/-! ## Lines -/

/-- The line of an entry. -/
def Entry.line (entry : Entry) : String :=
  String.ofList (List.replicate (2 * entry.depth) ' ') ++
    Hex.signedUpper entry.tag ++ " (" ++ nameOf entry.tag ++ "):" ++
    (if entry.isParent then "" else " " ++ valueText entry.tag entry.value) ++ "\n"

/-- The outline of octets as text, from the entries that a reader finds in them. -/
def renderBy (reader : Bytes → Except Flaw (List Entry)) (octets : Bytes) : Except Flaw String :=
  (reader octets).map fun entries => String.join (entries.map Entry.line)

/-- The value of the first data object with a tag, among those that a reader finds. -/
def findBy? (reader : Bytes → Except Flaw (List Entry)) (octets : Bytes) (tag : Int) :
    Except Flaw (Option Bytes) :=
  (reader octets).map fun entries =>
    (entries.find? fun entry => entry.tag = tag).map Entry.value

/-- The outline of octets as text. -/
def render (octets : Bytes) : Except Flaw String := renderBy entries octets

/-- The value of the first data object with a tag. -/
def find? (octets : Bytes) (tag : Int) : Except Flaw (Option Bytes) := findBy? entries octets tag

end AccessRules.Outline
