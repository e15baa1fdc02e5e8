import AccessRules.Applet.Objects
import AccessRules.Card.Basic
import AccessRules.Tlv.Element

/-!
# An applet in memory

A card that answers SELECT, STORE DATA and GET DATA the way the applet does. It keeps the encoded
rules in the order of their last storage, one for each reference, and sends them in pieces. A
limit on the number of rules makes it lose rules without saying so.
-/

namespace AccessRules

/-- The state of a card in memory. -/
structure Memory where
  /-- The encodings of the rules. -/
  rules : List Bytes := []
  /-- How many octets of an answer go into one piece; a negative size holds that many back. -/
  chunkSize : Int := 100
  /-- From how many rules on further ones are lost. -/
  storeLimit : Option Nat := none
  /-- Whether the applet is selected. -/
  selected : Bool := false
  /-- What has not been sent yet of the last answer. -/
  pending : Bytes := []
  deriving DecidableEq, Repr

namespace Memory

/-! ## Status words -/

/-- The command was carried out. -/
def done : Bytes := [0x90, 0x00]

/-- The application to select is not on the card. -/
def applicationNotFound : Bytes := [0x6a, 0x82]

/-- The applet is not selected. -/
def notSelected : Bytes := [0x69, 0x85]

/-- The data of the command are no command to the applet. -/
def wrongData : Bytes := [0x6a, 0x80]

/-- There is nothing to send. -/
def nothingFound : Bytes := [0x6a, 0x88]

/-- The command is none that the applet knows. -/
def unknownCommand : Bytes := [0x6d, 0x00]

/-! ## Storing -/

/-- The value of the first child of the first object, by which rules replace each other. -/
def referenceOf (octets : Bytes) : Except (Located Tlv.Flaw) (Option Bytes) := do
  let outer ← Tlv.decode octets
  let inner ← Tlv.decode ((outer.head?.map Tlv.Element.value).getD [])
  .ok (inner.head?.map Tlv.Element.value)

/-- The rules whose reference is another one than `reference`. -/
def others (reference : Option Bytes) : List Bytes → Except (Located Tlv.Flaw) (List Bytes)
  | [] => .ok []
  | rule :: rules => do
    let existing ← referenceOf rule
    let kept ← others reference rules
    .ok (if existing.isSome && existing = reference then kept else rule :: kept)

/-- Whether no further rule is kept. -/
def isFull (memory : Memory) : Bool :=
  match memory.storeLimit with
  | none => false
  | some limit => limit ≤ memory.rules.length

/-- Answers STORE DATA. -/
def storeData (data : Bytes) (memory : Memory) : Except (Located Tlv.Flaw) (Bytes × Memory) := do
  match (← Tlv.decode data).head? with
  | none => .ok (wrongData, memory)
  | some command =>
    if command.tag = Applet.deleteTag then .ok (done, { memory with rules := [] })
    else if command.tag ≠ Applet.storeTag then .ok (wrongData, memory)
    -- a full card says that it is done and keeps what it has
    else if memory.isFull then .ok (done, memory)
    else
      let reference ← referenceOf command.value
      let kept ← others reference memory.rules
      .ok (done, { memory with rules := kept ++ [command.value] })

/-! ## Sending -/

/-- How many octets of a pending answer go into the next piece. -/
def pieceSize (chunkSize : Int) (pending : Nat) : Nat :=
  if 0 ≤ chunkSize then chunkSize.toNat else (pending + chunkSize).toNat

/-- Sends the next piece of a pending answer. -/
def sendPiece (pending : Bytes) (memory : Memory) : Bytes × Memory :=
  let size := pieceSize memory.chunkSize pending.length
  (pending.take size ++ done, { memory with pending := pending.drop size })

/-! ## Commands -/

/-- The data of a command. -/
def commandData (command : Bytes) : Bytes :=
  (command.drop 5).take ((command.drop 4).head?.map UInt8.toNat |>.getD 0)

/-- Answers a command. -/
def answer (command : Bytes) (memory : Memory) : Except Rejection Bytes × Memory :=
  let data := commandData command
  if command.take 2 = [0x00, 0xa4] then
    if data = Applet.aid then (.ok done, { memory with selected := true })
    else (.ok applicationNotFound, { memory with selected := false })
  -- but for SELECT nothing is answered unless the applet is selected
  else if !memory.selected then (.ok notSelected, memory)
  else if command.take 2 = [0x80, 0xe2] then
    match storeData data memory with
    | .ok (status, memory) => (.ok status, memory)
    | .error flaw => (.error (.unreadable flaw), memory)
  else if command.take 4 = [0x80, 0xca, 0xff, 0x40] then
    if memory.rules = [] then (.ok nothingFound, memory)
    else
      match Tlv.encode Applet.allRulesTag memory.rules.flatten with
      | .error flaw => (.error (.unwritable flaw), memory)
      | .ok pending => let (piece, memory) := sendPiece pending memory; (.ok piece, memory)
  else if command.take 4 = [0x80, 0xca, 0xff, 0x60] then
    if memory.pending = [] then (.ok nothingFound, memory)
    else let (piece, memory) := sendPiece memory.pending memory; (.ok piece, memory)
  else (.ok unknownCommand, memory)

/-- The card in memory. -/
def card : Card Memory where
  atr := [0x3b, 0x9f, 0x96, 0x80, 0x1f, 0xc7]
  transmit command := Step.of (answer command)

end Memory

end AccessRules
