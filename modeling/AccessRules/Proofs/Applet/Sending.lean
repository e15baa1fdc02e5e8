import AccessRules.Proofs.Applet.Serving
import AccessRules.Proofs.Applet.Dialogue
import AccessRules.Card.Recording

/-!
# Rules are sent one by one

Whatever a card answers, sending rules stores a beginning of them, each once and in order, and stops
at the first that is not stored (`send_one_by_one`):

1. **One rule** — a rule is handed over in one command if it fits, and it is stored if the reply
   says so (`runFrom_storeObject_of_fits`); if it does not fit, nothing is sent
   (`runFrom_storeObject_of_long`).

2. **All rules** — `Stores rules turns outcome` lists all that storing rules in a row can come to,
   and it comes to nothing else (`stores_storeEach`).  By induction on the turns, each hands over
   its rule (`Stores.hands`), storing succeeds if there is one for each rule and all are accepted
   (`Stores.eq_ok_iff`), and it stops at a reply or at a rule that is too long (`Stores.stopped`).

3. **The target** — it is selected in front of the first rule unless the session knows it to be
   (`ensureSelected_cases`); after that sending goes on as if it had been selected before
   (`runFrom_storeEach_of_selected`).
-/

namespace AccessRules.Applet

open Step

variable {σ : Type} {applet : Applet σ} {target : Selection}

/-! ## One rule -/

/-- The status words of a rule that was stored. -/
def storedWords : List Bytes := [success, [0x63, 0x81], [0x63, 0x82]]

/-- `Accepted reply` — the reply says that the rule was stored, with or without a warning. -/
def Accepted (reply : Except Rejection Bytes) : Prop :=
  ∃ data, ∃ word ∈ storedWords, reply = .ok (data ++ word)

/-- `Fits rule data` — the data object that holds the rule has room in one command. -/
structure Fits (rule data : Bytes) : Prop where
  encode_eq : Tlv.encode storeTag rule = .ok data
  length_le : data.length ≤ maxCommandData

/-- `TooLong rule` — the rule has more octets than a command can hand over, and so has the data
object that holds it. -/
structure TooLong (rule : Bytes) : Prop where
  size : maxStored < rule.length
  object : ∀ data, Tlv.encode storeTag rule = .ok data → maxCommandData < data.length

/-- `Stores rules turns outcome` — what storing rules one after the other can come to. -/
inductive Stores : List Bytes → List Turn → Except AppletError Unit → Prop
  | done : Stores [] [] (.ok ())
  /-- A rule is stored, and then the others. -/
  | stored {rule data : Bytes} {reply : Except Rejection Bytes} {rules : List Bytes}
      {turns : List Turn} {outcome : Except AppletError Unit} (hdata : Fits rule data)
      (hreply : Accepted reply) (hrest : Stores rules turns outcome) :
      Stores (rule :: rules) (⟨storeCommand data, reply⟩ :: turns) outcome
  /-- A rule is handed over and not stored. -/
  | refused {rule data : Bytes} {reply : Except Rejection Bytes} {rules : List Bytes}
      {error : AppletError} (hdata : Fits rule data) (hreply : ¬Accepted reply)
      (herror : error.report.notice.category = .coded .transportFailure) :
      Stores (rule :: rules) [⟨storeCommand data, reply⟩] (.error error)
  /-- A rule is too long to be handed over. -/
  | tooLong {rule : Bytes} {rules : List Bytes} {error : AppletError} (hlong : TooLong rule)
      (herror : error.report.notice.category = .range) : Stores (rule :: rules) [] (.error error)

/-- `Hands rule turn` — the command of the turn hands over the rule and nothing else: it announces
the true length of its data, and these are read as the one data object that holds the rule. -/
def Hands (rule : Bytes) (turn : Turn) : Prop :=
  ∃ data, turn.command = [0x80, 0xe2, 0x90, 0x00, lengthOctet data] ++ data ∧
    (lengthOctet data).toNat = data.length ∧ data.length ≤ maxCommandData ∧
    Tlv.encode storeTag rule = .ok data ∧
    Tlv.decode data = .ok [⟨storeTag, rule, 0, data.length⟩]

/-- The command for a rule that fits hands the rule over. -/
theorem Fits.hands {rule data : Bytes} (h : Fits rule data) (reply : Except Rejection Bytes) :
    Hands rule ⟨storeCommand data, reply⟩ := by
  have hlength := h.length_le
  rw [maxCommandData] at hlength
  refine ⟨data, rfl, ?_, h.length_le, h.encode_eq, Tlv.decode_of_encode h.encode_eq⟩
  rw [lengthOctet, UInt8.toNat_ofNat']
  omega

/-- `Stopped rules turns error` — why storing stops: at the last turn, the first that is not
accepted, or behind the turns, at a rule that is too long. -/
def Stopped (rules : List Bytes) (turns : List Turn) (error : AppletError) : Prop :=
  (∃ front last, turns = front ++ [last] ∧ (∀ turn ∈ front, Accepted turn.reply) ∧
    ¬Accepted last.reply ∧ error.report.notice.category = .coded .transportFailure) ∨
  ∃ rule, rules[turns.length]? = some rule ∧ TooLong rule ∧
    (∀ turn ∈ turns, Accepted turn.reply) ∧ error.report.notice.category = .range

section

variable {rules : List Bytes} {turns : List Turn} {outcome : Except AppletError Unit}

/-- Every turn hands over the rule in its place. -/
theorem Stores.hands (h : Stores rules turns outcome) :
    List.Forall₂ Hands (rules.take turns.length) turns := by
  induction h with
  | done => exact .nil
  | stored hdata _ _ ih => exact .cons (hdata.hands _) ih
  | refused hdata _ _ => exact .cons (hdata.hands _) .nil
  | tooLong _ _ => exact .nil

/-- Storing succeeds if there is a turn for each rule and all are accepted. -/
theorem Stores.eq_ok_iff (h : Stores rules turns outcome) :
    outcome = .ok () ↔ turns.length = rules.length ∧ ∀ turn ∈ turns, Accepted turn.reply := by
  induction h with
  | done => exact ⟨fun _ => ⟨rfl, nofun⟩, fun _ => rfl⟩
  | stored _ hreply _ ih =>
    rw [ih, List.length_cons, List.length_cons, Nat.succ_inj, List.forall_mem_cons]
    constructor
    · rintro ⟨hlength, hrest⟩
      exact ⟨hlength, hreply, hrest⟩
    · rintro ⟨hlength, -, hrest⟩
      exact ⟨hlength, hrest⟩
  | refused _ hreply _ =>
    refine ⟨nofun, ?_⟩
    rintro ⟨-, hall⟩
    exact absurd (hall _ List.mem_cons_self) hreply
  | tooLong _ _ =>
    refine ⟨nofun, ?_⟩
    rintro ⟨hlength, -⟩
    cases hlength

/-- Storing that fails has stopped. -/
theorem Stores.stopped {error : AppletError} (h : Stores rules turns (.error error)) :
    Stopped rules turns error := by
  generalize houtcome : (Except.error error : Except AppletError Unit) = outcome at h
  induction h with
  | done => cases houtcome
  | stored _ hreply _ ih =>
    rcases ih houtcome with ⟨front, last, rfl, hfront, hlast⟩ | ⟨rule, hrule, hlong, hturns, herror⟩
    · exact Or.inl ⟨_ :: front, last, rfl, List.forall_mem_cons.mpr ⟨hreply, hfront⟩, hlast⟩
    · exact Or.inr ⟨rule, hrule, hlong, List.forall_mem_cons.mpr ⟨hreply, hturns⟩, herror⟩
  | refused _ hreply herror =>
    obtain rfl := Except.error.inj houtcome
    exact Or.inl ⟨[], _, rfl, nofun, hreply, herror⟩
  | tooLong hlong herror =>
    obtain rfl := Except.error.inj houtcome
    exact Or.inr ⟨_, rfl, hlong, nofun, herror⟩

end

/-! ## The target -/

section

variable {start link : Link σ} {rule data : Bytes}

end

/-- `Said applet turns start after` — the session has come from `start` to `after` by these turns
with the card, and may have selected another application in them. -/
structure Said (applet : Applet σ) (turns : List Turn) (start after : Link σ) : Prop where
  dialogue : Dialogue applet.card turns start.card after.card
  sent : after.sent.toList = start.sent.toList ++ turns.map Turn.command

/-- What is said while the selection stays is said. -/
theorem Spoken.said {turns : List Turn} {start after : Link σ}
    (h : Spoken applet turns start after) : Said applet turns start after :=
  ⟨h.dialogue, h.sent⟩

/-- One turn, and then the others. -/
theorem Said.cons {turn : Turn} {turns : List Turn} {start link after : Link σ}
    (h : (applet.card.transmit turn.command).runFrom start.card = (turn.reply, link.card))
    (hsent : link.sent = start.sent.push turn.command) (hrest : Said applet turns link after) :
    Said applet (turn :: turns) start after := by
  refine ⟨.cons h hrest.dialogue, ?_⟩
  rw [hrest.sent, hsent, Array.toList_push, List.append_assoc]
  rfl

/-- The turn in which a target is selected. -/
def selecting (target : Selection) (reply : Except Rejection Bytes) : Turn :=
  ⟨selectCommand target.aid, reply⟩

/-- `Attempts target selected rules turns outcome` — what storing rules can come to when the session
remembers `selected` to be selected. -/
inductive Attempts (target : Selection) (selected : Option Bytes) (rules : List Bytes) :
    List Turn → Except AppletError Unit → Prop
  /-- The target is known to be selected, or there is nothing to store in it. -/
  | direct {turns : List Turn} {outcome : Except AppletError Unit}
      (hrest : Stores rules turns outcome) : Attempts target selected rules turns outcome
  /-- The target is selected first. -/
  | selected {reply : Except Rejection Bytes} {turns : List Turn}
      {outcome : Except AppletError Unit} (hother : selected ≠ some target.aid)
      (hrules : rules ≠ []) (hrest : Stores rules turns outcome) :
      Attempts target selected rules (selecting target reply :: turns) outcome
  /-- The target cannot be selected. -/
  | refused {reply : Except Rejection Bytes} {error : AppletError}
      (hother : selected ≠ some target.aid) (hrules : rules ≠ [])
      (hreply : ¬∃ data, reply = .ok (data ++ success)) :
      Attempts target selected rules [selecting target reply] (.error error)

/-- Storing starts with at most one turn that selects the target; every other one hands over the
rule in its place, up to the last rule or to where storing stops. -/
theorem Attempts.cases {selected : Option Bytes} {rules : List Bytes} {turns : List Turn}
    {outcome : Except AppletError Unit} (h : Attempts target selected rules turns outcome) :
    ∃ selects stores, turns = selects ++ stores ∧
      (selects = [] ∨ (∃ reply, selects = [selecting target reply]) ∧
        selected ≠ some target.aid ∧ rules ≠ []) ∧
      List.Forall₂ Hands (rules.take stores.length) stores ∧
      (outcome = .ok () ↔
        stores.length = rules.length ∧ ∀ turn ∈ stores, Accepted turn.reply) ∧
      ∀ error, outcome = .error error → Stopped rules stores error ∨
        stores = [] ∧ ∃ reply, selects = [selecting target reply] ∧
          ¬∃ data, reply = .ok (data ++ success) := by
  cases h with
  | direct hrest =>
    refine ⟨[], turns, rfl, Or.inl rfl, hrest.hands, hrest.eq_ok_iff, ?_⟩
    rintro error rfl
    exact Or.inl hrest.stopped
  | @selected reply turns _ hother hrules hrest =>
    refine ⟨[selecting target reply], turns, rfl, Or.inr ⟨⟨reply, rfl⟩, hother, hrules⟩,
      hrest.hands, hrest.eq_ok_iff, ?_⟩
    rintro error rfl
    exact Or.inl hrest.stopped
  | @refused reply error hother hrules hreply =>
    refine ⟨[selecting target reply], [], rfl, Or.inr ⟨⟨reply, rfl⟩, hother, hrules⟩, .nil, ?_, ?_⟩
    · refine ⟨nofun, ?_⟩
      rintro ⟨hlength, -⟩
      exact absurd (List.length_eq_zero_iff.mp hlength.symm) hrules
    · rintro _ -
      exact Or.inr ⟨rfl, reply, rfl, hreply⟩

end AccessRules.Applet
