import AccessRules.Rule.Decode
import AccessRules.Rule.Encode
import AccessRules.Store

/-!
# Rules in a row

An applet sends and receives its rules as their encodings one after the other. Octets are first cut
at the ends of the data objects; only when all of them are rules by their tag is the first decoded.
-/

namespace AccessRules.Canonical

/-! ## Flaws -/

/-- Why octets cannot be cut into rules. -/
inductive CutFlaw
  /-- They go on with something that is no complete data object. -/
  | incomplete (flaw : Located Tlv.Flaw)
  | otherTag (tag : Nat)
  deriving DecidableEq, Repr

/-- A flaw, where the object with the flaw starts, and how many rules are in front of it. -/
structure CutError where
  reason : CutFlaw
  offset : Nat
  index : Nat
  deriving DecidableEq, Repr

/-- The report of a cut that failed. -/
def CutError.report (error : CutError) : Report :=
  match error.reason with
  | .incomplete flaw =>
    (Report.store "Trailing bytes do not form a complete record" error.offset error.index).causedBy
      (Tlv.Flaw.report flaw)
  | .otherTag tag =>
    Report.store ("Expected REF-AR-DO (E2), got tag " ++ Hex.numberUpper tag) error.offset
      error.index

/-- The report says where the octets stop and how many rules are in front. -/
theorem CutError.notice_report (error : CutError) :
    error.report.notice.category = .coded .malformedStore ∧
      error.report.notice.particulars =
        { offset := some (error.offset : Int), recordIndex := some (error.index : Int) } := by
  unfold CutError.report
  split <;> exact ⟨rfl, rfl⟩

/-- Why octets are not rules in a row. -/
inductive DecodeError
  | cut (error : CutError)
  | rule (flaw : Located RuleFlaw)
  deriving DecidableEq, Repr

/-- The report of rules that cannot be decoded. -/
def DecodeError.report : DecodeError → Report
  | .cut error => error.report
  | .rule flaw => RuleFlaw.report flaw

/-! ## Reading -/

/-- The encodings that octets are the concatenation of, when `offset` octets and `index` rules are
in front of them. A flaw in a data object is located from the front. -/
def cutFrom (offset index : Nat) (octets : Bytes) : Except CutError (List Bytes) :=
  if octets = [] then .ok []
  else
    match h : Tlv.readElement octets with
    | .error flaw => .error ⟨.incomplete (flaw.shift offset), offset, index⟩
    | .ok (element, rest) =>
      have : rest.length < octets.length := Tlv.length_lt_of_readElement h
      if element.tag = Objects.rule then
        (cutFrom (offset + element.size) (index + 1) rest).map (octets.take element.size :: ·)
      else .error ⟨.otherTag element.tag, offset, index⟩
termination_by octets.length

/-- The encodings of rules that octets are the concatenation of. -/
def cut (octets : Bytes) : Except CutError (List Bytes) := cutFrom 0 0 octets

/-- The rules that encodings in a row stand for, the first of which starts at `offset`. -/
def decodeEach (offset : Nat) : List Bytes → Except (Located RuleFlaw) (List Rule)
  | [] => .ok []
  | octets :: more => do
    let rule ← Rule.decodeAt offset octets
    let rules ← decodeEach (offset + octets.length) more
    .ok (rule :: rules)

/-- The rules that octets encode one after the other. -/
def decode (octets : Bytes) : Except DecodeError (List Rule) := do
  let encodings ← (cut octets).mapError .cut
  (decodeEach 0 encodings).mapError .rule

/-- The store of the rules that octets encode. -/
def decodeStore (octets : Bytes) : Except DecodeError Store := (decode octets).map Store.ofList

/-! ## Writing -/

/-- The encodings of rules one after the other. -/
def encode : List Rule → Except Tlv.RangeFlaw Bytes
  | [] => .ok []
  | rule :: rules => do
    let first ← rule.encode
    let rest ← encode rules
    .ok (first ++ rest)

/-! ## Comparing -/

/-- The first place at which two lists differ, from `index` on. -/
def firstDifference (index : Nat) : List Bytes → List Bytes → Option Nat
  | [], [] => none
  | a :: as, b :: bs => if a = b then firstDifference (index + 1) as bs else some index
  | _, _ => some index

/-- The index of the first rule in which two strings of octets differ. Octets that cannot be cut
are only ever compared with themselves. -/
def mismatch? (expected actual : Bytes) : Except CutError (Option Nat) :=
  -- equal octets are not cut, so they need not be rules
  if expected = actual then .ok none
  else do
    let expected ← cut expected
    let actual ← cut actual
    .ok (firstDifference 0 expected actual)

end AccessRules.Canonical
