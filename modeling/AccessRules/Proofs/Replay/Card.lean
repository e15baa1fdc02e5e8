import AccessRules.Proofs.Applet.Serving
import AccessRules.Proofs.Replay.Batch
import AccessRules.Proofs.Replay.Restore

/-!
# Restoring a store together with a card

The script that is printed for a store makes the store again, and puts its rules on a card as far as
the limit of the card allows, whatever was on the card before (`run_print_card`):

1. **Operations** — each of them is carried out on the card and on the store
   (`execute_selectTarget_card`, `execute_deleteAll_card`, `execute_storeRule_card`).

2. **Rules** — by induction on the rules that are left: the card holds what the limit allows of the
   rules that have been stored so far (`runFrom_carryOut_rules`).  The keys of all rules are
   distinct, so no rule takes the place of one before.
-/

namespace AccessRules.Replay

open Applet (Ready)

variable {applet : Applet Memory} {state : State (Link Memory)} {start : Memory}
  {encodings : List Bytes}

/-- What succeeds on the transport changes it and nothing else. -/
theorem runFrom_onTransport {σ ε α : Type} {step : Step σ ε α} {state : State σ} {a : α}
    {after : σ} (h : step.runFrom state.transport = (.ok a, after)) :
    (onTransport step).runFrom state = (.ok a, { state with transport := after }) := by
  rw [onTransport, Step.runFrom_within, Step.runFrom_mapError, h]
  rfl

/-! ## Operations -/

/-- What was selected as the applet. -/
def appletTarget (label : String) : Target := ⟨label, some ⟨label, Applet.aid, []⟩⟩

/-- The application is selected, on a card with the same rules as before. -/
theorem execute_selectTarget_card (hcard : applet.card = Memory.card) {label : String}
    (hlabel : applet.resolve label = .ok Applet.aid) (last : Option Target) :
    ∃ link, (execute (some applet.transport) last (.selectTarget label)).runFrom state =
        (.ok (appletTarget label), { state with transport := link }) ∧
      Ready state.transport.card state.transport.card.rules link := by
  have hrun := Applet.runFrom_select hcard hlabel state.transport
  refine ⟨⟨{ state.transport.card with selected := true }, some Applet.aid,
    state.transport.sent.push (Applet.selectCommand Applet.aid)⟩, ?_, rfl, rfl, rfl, rfl, rfl⟩
  show (onTransport (applet.select label) >>= _).runFrom state = _
  rw [Step.runFrom_bind_of_ok (runFrom_onTransport hrun)]
  rfl

/-- All rules are deleted, in the store and on the card. -/
theorem execute_deleteAll_card (hcard : applet.card = Memory.card) (label : String)
    {rules : List Bytes} (h : Ready start rules state.transport) :
    ∃ link, (execute (some applet.transport) (some (appletTarget label)) .deleteAll).runFrom state =
        (.ok (appletTarget label), { state with store := Store.empty, transport := link }) ∧
      Ready start [] link := by
  obtain ⟨link, hrun, hlink⟩ :=
    @Applet.ready_deleteAll applet ⟨label, Applet.aid, []⟩ _ _ _ hcard rfl h
  refine ⟨link, ?_, hlink⟩
  show (onTransport (applet.deleteAll ⟨label, Applet.aid, []⟩) >>= _).runFrom state = _
  rw [Step.runFrom_bind_of_ok (runFrom_onTransport hrun)]
  rfl

/-- A new rule is stored on both sides, on the card behind those it holds. -/
theorem execute_storeRule_card (hcard : applet.card = Memory.card) (label : String)
    {known : List Rule} (hwritten : Memory.Written known encodings)
    (h : Ready start (Memory.within start.storeLimit encodings) state.transport)
    (hvalid : ∀ rule ∈ known, rule.Valid) {rule : Rule} (hrule : rule.Valid)
    (hnew : rule.key ∉ known.map Rule.key) {octets : Bytes} (hencode : rule.encode = .ok octets)
    (hsize : octets.length ≤ Applet.maxStored) :
    ∃ link, (execute (some applet.transport) (some (appletTarget label))
        (.storeRule rule)).runFrom state =
        (.ok (appletTarget label),
          { state with store := state.store.insert rule, transport := link }) ∧
      Ready start (Memory.within start.storeLimit (encodings ++ [octets])) link := by
  obtain ⟨link, hrun, hlink⟩ := @Applet.ready_send applet ⟨label, Applet.aid, []⟩ _ _ hcard rfl
    _ _ hwritten h hvalid _ hrule hnew _ hencode hsize
  refine ⟨link, ?_, hlink⟩
  -- the part that is done on the card: the encoding is handed over
  have hthere : (encoded rule.encode >>= fun octets => onTransport
      (applet.send ⟨label, Applet.aid, []⟩ octets)).runFrom state =
        (.ok (), { state with transport := link }) := by
    rw [encoded, Step.runFrom_bind_of_ok (Step.runFrom_lift_mapError hencode _ _),
      runFrom_onTransport hrun]
  show ((encoded rule.encode >>= fun octets =>
    onTransport (applet.send ⟨label, Applet.aid, []⟩ octets)) >>= _).runFrom state = _
  rw [Step.runFrom_bind_of_ok hthere]
  rfl

/-! ## Rules -/

/-- Rules with new keys are stored one by one, and the card keeps what its limit allows of them. -/
theorem runFrom_carryOut_rules (hcard : applet.card = Memory.card) (label : String)
    {known rules : List Rule} {others : List Bytes} (hwritten : Memory.Written known encodings)
    (hothers : Memory.Written rules others) (hvalid : ∀ rule ∈ known ++ rules, rule.Valid)
    (hdistinct : ((known ++ rules).map Rule.key).Nodup)
    (hsize : ∀ octets ∈ others, octets.length ≤ Applet.maxStored)
    (h : Ready start (Memory.within start.storeLimit encodings) state.transport)
    (number executed : Nat) :
    ∃ link, (carryOut (some applet.transport) ⟨executed, some (appletTarget label)⟩
        (Script.numberFrom number (rules.map Operation.storeRule))).runFrom state =
        (.ok ⟨executed + rules.length, some (appletTarget label)⟩,
          { state with store := state.store.insertAll rules, transport := link }) ∧
      Ready start (Memory.within start.storeLimit (encodings ++ others)) link := by
  induction hothers generalizing known encodings state number executed with
  | nil =>
    rw [List.append_nil]
    exact ⟨state.transport, rfl, h⟩
  | @cons rule octets rules others hencode _ ih =>
    obtain ⟨hfirst, hrest⟩ := List.forall_mem_cons.mp hsize
    have hrule : rule.Valid := hvalid rule (List.mem_append_right _ List.mem_cons_self)
    have hknown : ∀ other ∈ known, other.Valid :=
      fun other hmem => hvalid other (List.mem_append_left _ hmem)
    -- the keys of all rules are distinct, and so is this one from the known
    have hnew : rule.key ∉ known.map Rule.key := by
      rw [List.map_append, List.nodup_append] at hdistinct
      intro hmem
      exact hdistinct.2.2 rule.key hmem rule.key List.mem_cons_self rfl
    obtain ⟨link, hrun, hlink⟩ := execute_storeRule_card hcard label hwritten h hknown hrule hnew
      hencode hfirst
    -- the rule that was stored is one of those that are known to the rest
    have hnext : Memory.Written (known ++ [rule]) (encodings ++ [octets]) :=
      List.rel_append hwritten (.cons hencode .nil)
    have hready : Ready start (Memory.within start.storeLimit (encodings ++ [octets]))
        (State.transport ⟨state.store.insert rule, link, state.output⟩) := hlink
    rw [List.append_cons] at hvalid hdistinct
    obtain ⟨last, hcarry, hlast⟩ := ih hnext hvalid hdistinct hrest hready
      (number + 1) (executed + 1)
    refine ⟨last, ?_, ?_⟩
    · rw [List.map_cons, Script.numberFrom, runFrom_carryOut_cons_of_ok hrun, hcarry,
        List.length_cons, Nat.add_right_comm, Nat.add_assoc]
      rfl
    · rw [List.append_cons]
      exact hlast

/-! ## The script -/

/-- The script of a store makes the store again, and brings as many of its rules onto the card as
    the limit of the card allows. -/
theorem run_print_card (hcard : applet.card = Memory.card)
    (hlabel : applet.resolve Applet.label = .ok Applet.aid) (store : Store)
    (hvalid : ∀ rule ∈ store.rules, rule.Valid) (hwritten : Memory.Written store.rules encodings)
    (hsize : ∀ octets ∈ encodings, octets.length ≤ Applet.maxStored) :
    ∃ link, (run (some applet.transport) (Script.print none false store.rules)).runFrom state =
        (.ok ⟨2 + store.size, some (appletTarget Applet.label)⟩,
          ⟨store, link, state.output⟩) ∧
      Ready state.transport.card
        (Memory.within state.transport.card.storeLimit encodings) link := by
  have hnone : ∀ label ∈ (none : Option String), Text.IsWord label := by
    intro label hmem
    cases hmem
  have hprintable : ∀ operation ∈ Script.restore none false store.rules, operation.Printable :=
    fun operation hmem => printable_of_mem_restore hnone hvalid hmem
  have hoperations : Script.restore none false store.rules =
      .selectTarget Applet.label :: .deleteAll :: store.rules.map .storeRule := List.append_nil _
  have hparse : Script.parse (Script.print none false store.rules) =
      .ok (⟨1, .selectTarget Applet.label⟩ :: ⟨2, .deleteAll⟩ ::
        Script.numberFrom 3 (store.rules.map .storeRule)) := by
    rw [Script.print, Script.parse_ofOperations hprintable, hoperations]
    rfl
  obtain ⟨first, hselect, hfirst⟩ :=
    @execute_selectTarget_card applet state hcard Applet.label hlabel none
  obtain ⟨second, hdelete, hsecond⟩ := @execute_deleteAll_card applet
    { state with transport := first } _ hcard Applet.label _ hfirst
  -- nothing is kept of no rules, whatever the limit
  have hempty : Ready state.transport.card (Memory.within state.transport.card.storeLimit [])
      second := by
    rw [Memory.within_nil]
    exact hsecond
  obtain ⟨last, hrules, hlast⟩ := @runFrom_carryOut_rules applet
    { state with store := Store.empty, transport := second } state.transport.card [] hcard
    Applet.label [] store.rules encodings .nil hwritten hvalid store.distinct hsize hempty 3 2
  refine ⟨last, ?_, hlast⟩
  rw [runFrom_run_of_parse hparse, runFrom_carryOut_cons_of_ok hselect,
    runFrom_carryOut_cons_of_ok hdelete, hrules]
  show (_, (⟨Store.ofList store.rules, last, state.output⟩ : State (Link Memory))) = _
  rw [Store.ofList_rules]
  rfl

end AccessRules.Replay
