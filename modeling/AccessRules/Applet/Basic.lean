import AccessRules.Applet.Error
import AccessRules.Applet.Objects
import AccessRules.Transport

/-!
# The applet on a card

The applet is reached by commands to the card it is on. A session remembers which application it
selected last, and selects the one that a request is for again if that is another one. Rules are
stored one to a command, and read in as many pieces as the card makes of them.
-/

namespace AccessRules

/-! ## Sessions -/

/-- How to reach the applications of a card: the card, the name of its reader, and the identifiers
that labels stand for, the first entry of a label counting. -/
structure Applet (σ : Type) where
  card : Card σ
  reader : String
  labels : List (String × Bytes)

/-- The state of a session: that of the card, the identifier selected last, and the commands sent
so far. -/
structure Link (σ : Type) where
  card : σ
  selected : Option Bytes := none
  sent : Array Bytes := #[]

/-- The version of an interface. -/
structure Version where
  major : UInt8
  minor : UInt8
  patch : UInt8
  deriving DecidableEq, Repr

namespace Applet

variable {σ : Type}

/-- The applet on a card, where labels may stand for further identifiers. Of two entries for a
label the later one counts. -/
def onCard (card : Card σ) (reader : String) (labels : List (String × Bytes)) : Applet σ :=
  ⟨card, reader, labels.reverse ++ [(label, aid)]⟩

/-- The version announced where no other is given. -/
def ownVersion : Version := ⟨0, 0, 1⟩

/-! ## Commands -/

/-- The octet that announces a length, which wraps around at 256. -/
def lengthOctet (data : Bytes) : UInt8 := UInt8.ofNat data.length

/-- The command that selects an application. -/
def selectCommand (aid : Bytes) : Bytes :=
  [0x00, 0xa4, 0x04, 0x00, lengthOctet aid] ++ aid ++ [0x00]

/-- The command that hands data to the applet. -/
def storeCommand (data : Bytes) : Bytes := [0x80, 0xe2, 0x90, 0x00, lengthOctet data] ++ data

/-- The most data that one command hands over. -/
def maxCommandData : Nat := 255

/-- The command that asks for a data object, which may need data itself. -/
def getCommand (tag : Nat) (data : Bytes) : Bytes :=
  [0x80, 0xca] ++ bigEndian 2 tag ++
    (if data = [] then [] else lengthOctet data :: data) ++ [0x00]

/-! ## Exchanges -/

/-- Sends a command and takes the answer. -/
def exchange (applet : Applet σ) (command : Bytes) : Step (Link σ) AppletError Response :=
  Step.of fun link =>
    let (outcome, card) := (applet.card.transmit command).runFrom link.card
    let outcome := match outcome with
      | .ok octets => .ok (Response.ofOctets octets)
      | .error rejection => .error (.undelivered rejection)
    (outcome, { link with card := card, sent := link.sent.push command })

/-- Fails unless the answer to a request is one that is accepted. -/
def check (request : Request) (accepted : Bool) (response : Response) :
    Step (Link σ) AppletError Unit :=
  Step.require accepted (.refused request response.sw1 response.sw2)

/-- The identifier that a label stands for: the one it is known for, or else the one it spells in
digits. -/
def resolve (applet : Applet σ) (label : String) : Except AppletError Bytes :=
  match applet.labels.lookup label with
  | some aid => .ok aid
  | none =>
    match Hex.decode? label with
    | some aid =>
      if 5 ≤ aid.length ∧ aid.length ≤ maxAidSize then .ok aid else .error (.unknownLabel label)
    | none => .error (.unknownLabel label)

/-- Selects the application with an identifier. -/
def selectAid (applet : Applet σ) (label : String) (aid : Bytes) :
    Step (Link σ) AppletError Selection := do
  let response ← applet.exchange (selectCommand aid)
  -- 6A82: the card has no such application
  Step.require (!response.hasStatus 0x6a 0x82) (.notOnCard label aid)
  check (.select label) response.isOk response
  modify fun link => { link with selected := some aid }
  return ⟨label, aid, response.data⟩

/-- Selects the application that a label stands for. -/
def select (applet : Applet σ) (label : String) : Step (Link σ) AppletError Selection := do
  let aid ← Step.lift (applet.resolve label)
  applet.selectAid label aid

/-- Selects an application again unless it is the one selected last. -/
def ensureSelected (applet : Applet σ) (target : Selection) :
    Step (Link σ) AppletError Unit := do
  let link ← get
  if link.selected = some target.aid then return ()
  else
    let _ ← applet.selectAid target.label target.aid
    return ()

/-! ## Storing -/

/-- Hands one data object to the applet. -/
def storeData (applet : Applet σ) (target : Selection) (data : Bytes) :
    Step (Link σ) AppletError Response := do
  -- selected again before the size is looked at
  applet.ensureSelected target
  Step.require (data.length ≤ maxCommandData) (.longCommand data.length)
  let response ← applet.exchange (storeCommand data)
  check .storeData (response.isOk || response.isStoreWarning) response
  return response

/-- Hands one data object with this tag to the applet. -/
def storeObject (applet : Applet σ) (target : Selection) (tag : Nat) (value : Bytes) :
    Step (Link σ) AppletError Unit := do
  let object ← Step.lift ((Tlv.encode tag value).mapError .unwritable)
  let _ ← applet.storeData target object
  return ()

/-- Stores encoded rules, each with a command of its own. -/
def storeEach (applet : Applet σ) (target : Selection) :
    List Bytes → Step (Link σ) AppletError Unit
  | [] => return ()
  | rule :: rules => do
    applet.storeObject target storeTag rule
    storeEach applet target rules

/-- Stores every rule of the encodings in a row. -/
def send (applet : Applet σ) (target : Selection) (octets : Bytes) :
    Step (Link σ) AppletError Unit := do
  let rules ← Step.lift ((Canonical.cut octets).mapError .cut)
  applet.storeEach target rules

/-- Deletes every rule. -/
def deleteAll (applet : Applet σ) (target : Selection) : Step (Link σ) AppletError Unit :=
  applet.storeObject target deleteTag []

/-! ## Reading -/

/-- The next `missing` octets of an answer of `total` octets. -/
def fetch (applet : Applet σ) (total missing : Nat) : Step (Link σ) AppletError Bytes :=
  if _h : missing = 0 then return []
  else do
    let next ← applet.exchange (getCommand nextTag [])
    check .getNext next.isOk next
    -- a piece without octets would never complete the answer
    if _empty : next.data.length = 0 then throw (.noData next.sw1 next.sw2)
    else if next.data.length ≤ missing then
      let rest ← fetch applet total (missing - next.data.length)
      return next.data ++ rest
    else throw (.longAnswer total)
termination_by missing

/-- The rules in an answer of which the first piece is there. -/
def completeAnswer (applet : Applet σ) (first : Bytes) : Step (Link σ) AppletError Bytes := do
  let header ← Step.lift ((Tlv.readHeaderAt 0 first).mapError .unreadable)
  Step.require (header.tag = allRulesTag) (.otherAnswer header.tag)
  let total := header.size + header.length
  Step.require (first.length ≤ total) (.longAnswer total)
  let rest ← applet.fetch total (total - first.length)
  return (first ++ rest).drop header.size

/-- Reads the encodings of all rules in a row. -/
def readAll (applet : Applet σ) (target : Selection) : Step (Link σ) AppletError Bytes := do
  applet.ensureSelected target
  let first ← applet.exchange (getCommand allRulesTag [])
  -- 6A88: there are no rules
  if first.hasStatus 0x6a 0x88 then return []
  else
    check .getAll first.isOk first
    if first.data = [] then return []
    else applet.completeAnswer first.data

/-! ## Configuration -/

/-- The value of the first object with a tag. -/
def valueOf (tag : Nat) (octets : Bytes) : Except (Located Tlv.Flaw) (Option Bytes) :=
  (Tlv.decode octets).map fun elements => (Tlv.find? tag elements).map Tlv.Element.value

/-- The value of the first object with the first tag, then inside it with the next, and so on. -/
def innermost : List Nat → Bytes → Except (Located Tlv.Flaw) (Option Bytes)
  | [], octets => .ok (some octets)
  | tag :: tags, octets => do
    match ← valueOf tag octets with
    | some value => innermost tags value
    | none => .ok none

/-- Announces the version of the interface of the device, and reads that of the applet. -/
def config (applet : Applet σ) (target : Selection) (version : Version) :
    Step (Link σ) AppletError Version := do
  applet.ensureSelected target
  -- the version is nested in the objects around it from the inside out
  let announced := [version.major, version.minor, version.patch]
  let inner ← Step.lift ((Tlv.encode versionTag announced).mapError .unwritable)
  let outer ← Step.lift ((Tlv.encode deviceConfigTag inner).mapError .unwritable)
  let response ← applet.exchange (getCommand configAnswerTag outer)
  check .getConfig response.isOk response
  let value ← Step.lift
    ((innermost [configAnswerTag, appletConfigTag, versionTag] response.data).mapError .unreadable)
  match value with
  | some [major, minor, patch] => return ⟨major, minor, patch⟩
  | _ => throw (.noVersion response.sw1 response.sw2)

/-! ## The applet as a transport -/

/-- The transport that keeps rules in the applet. -/
def transport (applet : Applet σ) : Transport (Link σ) AppletError where
  select := applet.select
  send := applet.send
  deleteAll := applet.deleteAll
  readAll := applet.readAll

/-- What the card identifies itself as, in digits. -/
def atrText (applet : Applet σ) : String := Hex.encode applet.card.atr

end Applet

end AccessRules
