import AccessRules.Proofs.Card.Memory
import AccessRules.Proofs.Canonical.Rows
import AccessRules.Proofs.Applet.Requests

/-!
# Storing through the applet

What a request to the applet does to the rules on a card in memory:

1. **Frame** — selecting and reading send no STORE DATA, so they change no rules, whether they
   succeed or fail (`keeps_select`, `keeps_ensureSelected`, `keeps_readAll`).

2. **Storing** — a request that stores sends one STORE DATA, as the last command.  If it succeeds, a
   card with the same rules carried it out; if it fails, no rule has been changed (`sends_send`,
   `sends_deleteAll`).  This holds of failures behind the command too, since the answer that they
   are made of says that nothing was done.
-/

namespace AccessRules.Applet

open Step

/-- The rules on the card of a session, and how many it may hold. -/
def kept (link : Link Memory) : List Bytes × Option Nat := link.card.kept

variable {applet : Applet Memory}

/-! ## Frame -/

/-- The card in memory answers a request and is then as it leaves itself. -/
theorem runFrom_exchange (hcard : applet.card = Memory.card) (command : Bytes)
    (link : Link Memory) :
    (applet.exchange command).runFrom link =
      ((match (Memory.answer command link.card).1 with
        | .ok octets => .ok (Response.ofOctets octets)
        | .error rejection => .error (.undelivered rejection)),
        { link with
          card := (Memory.answer command link.card).2, sent := link.sent.push command }) := by
  rw [exchange, runFrom_of, hcard]
  rfl

/-- Only storing changes what the card keeps. -/
theorem keeps_exchange (hcard : applet.card = Memory.card) {command : Bytes}
    (h : command.take 2 ≠ [0x80, 0xe2]) : Keeps kept (applet.exchange command) := by
  intro link
  rw [runFrom_exchange hcard]
  exact Memory.kept_answer h link.card

theorem keeps_check (request : Request) (accepted : Bool) (response : Response) :
    Keeps kept (check request accepted response) := keeps_require _ _

/-- Selecting keeps what the card keeps. -/
theorem keeps_selectAid (hcard : applet.card = Memory.card) (label : String) (aid : Bytes) :
    Keeps kept (applet.selectAid label aid) := by
  have hcommand : (selectCommand aid).take 2 ≠ [0x80, 0xe2] := by
    simp [selectCommand]
  have hmodify : Keeps kept (modify fun link => { link with selected := some aid } :
      Step (Link Memory) AppletError PUnit) := keeps_modify fun _ => rfl
  refine (keeps_exchange hcard hcommand).bind fun response => ?_
  refine (keeps_require _ _).bind fun _ => (keeps_check _ _ _).bind fun _ => ?_
  exact hmodify.bind fun _ => keeps_pure _

/-- Selecting changes no rules. -/
theorem keeps_select (hcard : applet.card = Memory.card) (label : String) :
    Keeps kept (applet.select label) :=
  (keeps_lift _).bind fun aid => keeps_selectAid hcard label aid

/-- Being selected, or selecting first, keeps it too. -/
theorem keeps_ensureSelected (hcard : applet.card = Memory.card) (target : Selection) :
    Keeps kept (applet.ensureSelected target) := by
  refine keeps_get.bind fun link => ?_
  split
  · exact keeps_pure ()
  · exact (keeps_selectAid hcard _ _).bind fun _ => keeps_pure ()

theorem take_getCommand_ne (tag : Nat) (data : Bytes) :
    (getCommand tag data).take 2 ≠ [0x80, 0xe2] := by
  simp [getCommand]

/-- Reading changes no rules. -/
theorem keeps_readAll (hcard : applet.card = Memory.card) (target : Selection) :
    Keeps kept (applet.readAll target) := by
  have hget : ∀ tag data, Keeps kept (applet.exchange (getCommand tag data)) :=
    fun tag data => keeps_exchange hcard (take_getCommand_ne tag data)
  refine keeps_of_leads fun shown => ?_
  exact leads_readAll ((keeps_ensureSelected hcard target).leads (· = shown))
    (fun tag data => (hget tag data).leads (· = shown)) fun _ h => h

/-! ## Storing -/

/-- `Sends object step` — the step either succeeds, because a card with the same rules carried out
    STORE DATA with an `object`, or fails and has changed no rule. -/
def Sends {α : Type} (object : Bytes → Prop) (step : Step (Link Memory) AppletError α) : Prop :=
  ∀ link, match step.runFrom link with
    | (.ok _, after) => ∃ data before, object data ∧ before.kept = kept link ∧
        Memory.storeData data before = .ok (Memory.done, after.card)
    | (.error _, after) => kept after = kept link

variable {α β : Type} {object : Bytes → Prop}

/-- What changes no rules may come first. -/
theorem Sends.of_keeps_bind {step : Step (Link Memory) AppletError α}
    {next : α → Step (Link Memory) AppletError β} (hstep : Keeps kept step)
    (hnext : ∀ a, Sends object (next a)) : Sends object (step >>= next) := by
  intro link
  have hfirst := hstep link
  rw [runFrom_bind]
  cases hrun : step.runFrom link with
  | mk outcome middle =>
    rw [hrun] at hfirst
    cases outcome with
    | error e => exact hfirst
    | ok a =>
      have hsecond := hnext a middle
      rw [show kept middle = kept link from hfirst] at hsecond
      exact hsecond

/-- What only looks at the outcome may come last. -/
theorem Sends.bind_pure {step : Step (Link Memory) AppletError α} (h : Sends object step)
    (f : α → β) : Sends object (step >>= fun a => pure (f a)) := by
  intro link
  have hfirst := h link
  rw [runFrom_bind]
  cases hrun : step.runFrom link with
  | mk outcome after =>
    rw [hrun] at hfirst
    cases outcome with
    | error e => exact hfirst
    | ok a => exact hfirst

/-- What a step sends may be said less exactly. -/
theorem Sends.mono {step : Step (Link Memory) AppletError α} {object' : Bytes → Prop}
    (h : Sends object step) (hobject : ∀ data, object data → object' data) :
    Sends object' step := by
  intro link
  have hstep := h link
  cases hrun : step.runFrom link with
  | mk outcome after =>
    rw [hrun] at hstep
    cases outcome with
    | error e => exact hstep
    | ok a =>
      obtain ⟨data, before, hdata, hsent⟩ := hstep
      exact ⟨data, before, hobject data hdata, hsent⟩

/-- The command and the look at its answer. -/
theorem sends_command (hcard : applet.card = Memory.card) {data : Bytes}
    (hsize : data.length ≤ maxCommandData) :
    Sends (· = data) (do
      let response ← applet.exchange (storeCommand data)
      check .storeData (response.isOk || response.isStoreWarning) response
      return response) := by
  intro link
  rw [runFrom_bind, runFrom_exchange hcard, Memory.answer_storeCommand hsize]
  by_cases hselected : link.card.selected = true
  · rw [if_pos hselected]
    cases hstore : Memory.storeData data link.card with
    | error flaw => rfl
    | ok stored =>
      obtain ⟨status, after⟩ := stored
      -- the answer that is accepted is the one that comes with the change
      rcases Memory.storeData_ok_cases hstore with ⟨rules, rfl, -⟩ | ⟨rfl, rfl⟩
      · exact ⟨data, link.card, rfl, rfl, hstore⟩
      · rfl
  · rw [if_neg hselected]
    rfl

/-- Storing data sends it, after the applet was selected. -/
theorem sends_storeData (hcard : applet.card = Memory.card) (target : Selection) (data : Bytes) :
    Sends (· = data) (applet.storeData target data) := by
  refine Sends.of_keeps_bind (keeps_ensureSelected hcard target) fun _ => ?_
  by_cases hsize : data.length ≤ maxCommandData
  · rw [Step.require, if_pos hsize]
    exact sends_command hcard hsize
  · rw [Step.require, if_neg hsize]
    exact fun link => rfl

/-- One data object: if it has no encoding, nothing is sent. -/
theorem sends_storeObject (hcard : applet.card = Memory.card) (target : Selection) (tag : Nat)
    (value : Bytes) :
    Sends (fun data => Tlv.encode tag value = .ok data) (applet.storeObject target tag value) := by
  rw [storeObject]
  cases hencode : Tlv.encode tag value with
  | error flaw => exact fun link => rfl
  | ok data =>
    show Sends _ (applet.storeData target data >>= fun _ => pure ())
    have hsends := (sends_storeData hcard target data).bind_pure fun _ => ()
    exact hsends.mono fun other heq => heq ▸ rfl

/-- The encoding of one rule is one rule to send. -/
theorem cut_of_encode {rule : Rule} {octets : Bytes} (h : rule.encode = .ok octets) :
    Canonical.cut octets = .ok [octets] := by
  refine Canonical.cutFrom_eq_ok_iff.mpr ⟨(List.append_nil octets).symm, ?_⟩
  exact List.forall_mem_singleton.mpr (Canonical.isRuleObject_of_encode h)

/-- The encoding of a rule is sent with one command. -/
theorem sends_send (hcard : applet.card = Memory.card) (target : Selection) {rule : Rule}
    {octets : Bytes} (h : rule.encode = .ok octets) :
    Sends (fun data => Tlv.encode storeTag octets = .ok data) (applet.send target octets) := by
  rw [send, cut_of_encode h]
  show Sends _ (applet.storeObject target storeTag octets >>= fun _ => pure ())
  exact (sends_storeObject hcard target storeTag octets).bind_pure fun _ => ()

/-- Deleting everything sends the object that asks for it. -/
theorem sends_deleteAll (hcard : applet.card = Memory.card) (target : Selection) :
    Sends (fun data => Tlv.encode deleteTag [] = .ok data) (applet.deleteAll target) :=
  sends_storeObject hcard target deleteTag []

end AccessRules.Applet
