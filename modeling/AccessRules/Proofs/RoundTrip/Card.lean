import AccessRules.Proofs.Replay.Card
import AccessRules.Proofs.RoundTrip.Calls
import Mathlib.Data.List.Flatten

/-!
# Round trips over a card

A round trip of a store over a card shows exactly whether the card has lost rules
(`run_card_of_limit`):

1. **Steps** — the export captures the script and the encodings of the rules, and the replay of the
   script makes the store again and brings as many rules onto the card as its limit allows
   (`Replay.run_print_card`).

2. **Verification** — the store is the same, so the card decides (`runFrom_verify`): what is read
   from it are the first rules, and they differ from all of them in the first that is missing
   (`same_take`).
-/

namespace AccessRules.RoundTrip

open Applet (Ready)

variable {σ ε : Type}

/-! ## Steps -/

/-- Octets are the same as themselves. -/
theorem same_self (octets : Bytes) (source : Source) :
    (same octets octets source : Except (Error ε) Unit) = .ok () :=
  same_eq_ok_iff.mpr rfl

/-- Where a round trip stands when what was restored has been compared. -/
def comparedStage : Except (Error ε) Unit → Stage
  | .ok _ => .verified
  | .error _ => .failed

/-- With the store as it was exported, the card decides whether a round trip is verified. -/
theorem runFrom_verify {options : Options σ ε} {transport : Transport σ ε}
    (htransport : options.transport = some transport) {snapshot : Snapshot}
    {work after : Replay.State σ}
    (hcanonical : Canonical.encode work.store.rules = .ok snapshot.baseline)
    {outcome : Except (Error ε) Unit}
    (hcheck : (verifyCard transport (options.target.getD Script.defaultTarget)
      snapshot.baseline).runFrom ⟨.after .restored snapshot, work⟩ =
        (outcome, ⟨.after .restored snapshot, after⟩)) :
    (verify options).runFrom ⟨.after .restored snapshot, work⟩ =
      (outcome.map fun _ => ⟨work.store.size, snapshot.script, snapshot.baseline⟩,
        ⟨.after (comparedStage outcome) snapshot, after⟩) := by
  obtain ⟨_, target⟩ := options
  obtain rfl := htransport
  -- the store is compared first, and it is the one that was exported
  have hstore : (Step.lift (same snapshot.baseline snapshot.baseline .store) :
      Trip σ ε Unit).runFrom ⟨.after .restored snapshot, work⟩ =
        (.ok (), ⟨.after .restored snapshot, work⟩) := by
    rw [same_self]
    rfl
  rw [verify, Step.runFrom_bind_of_ok (Step.runFrom_get _)]
  dsimp only
  rw [Step.runFrom_bind_of_ok (Step.runFrom_lift_mapError hcanonical _ _)]
  rw [Step.runFrom_bind, orFail, Step.runFrom_onFailure, Step.runFrom_bind_of_ok hstore, hcheck]
  cases outcome <;> rfl

/-! ## Verification -/

/-- A row that is cut off differs from the whole row in the first object that is missing. -/
theorem same_take {pieces : List Bytes} (h : ∀ piece ∈ pieces, Canonical.IsRuleObject piece)
    {limit : Nat} (hlimit : limit < pieces.length) (source : Source) :
    (same pieces.flatten (pieces.take limit).flatten source : Except (Error ε) Unit) =
      .error (.mismatch limit (some pieces[limit]) none source) := by
  have htake : ∀ piece ∈ pieces.take limit, Canonical.IsRuleObject piece :=
    fun piece hmem => h piece (List.mem_of_mem_take hmem)
  rw [same, Canonical.mismatch?_flatten h htake, Canonical.firstDifference_take hlimit,
    Canonical.cut_flatten h, Canonical.cut_flatten htake]
  show Except.error (Error.mismatch limit pieces[limit]? (pieces.take limit)[limit]? source) = _
  rw [List.getElem?_eq_getElem hlimit, List.getElem?_take, if_neg (Nat.lt_irrefl limit)]

section OverCard

variable {applet : Applet Memory} {start : Memory} {rules : List Bytes}

/-- What succeeds on the transport leaves the rest as it is. -/
theorem runFrom_onTransport {α : Type} {step : Step σ ε α} {state : State σ} {a : α} {after : σ}
    (h : step.runFrom state.work.transport = (.ok a, after)) :
    (onTransport step).runFrom state =
      (.ok a, { state with work := { state.work with transport := after } }) :=
  runFrom_onTransport_eq_ok_iff.mpr ⟨after, h, rfl⟩

/-- What is compared with the baseline are the rules on the card. -/
theorem runFrom_verifyCard (hcard : applet.card = Memory.card)
    (hlabel : applet.resolve Applet.label = .ok Applet.aid) (hchunk : 6 ≤ start.chunkSize)
    (hsize : rules.flatten.length ≤ 0xffffff) (baseline : Bytes) {position : Position}
    {work : Replay.State (Link Memory)} (h : Ready start rules work.transport) :
    ∃ link, (verifyCard applet.transport Applet.label baseline).runFrom ⟨position, work⟩ =
        (same baseline rules.flatten .card, ⟨position, { work with transport := link }⟩) ∧
      Ready start rules link := by
  obtain ⟨middle, hselect, hmiddle⟩ := Applet.ready_select hcard hlabel h
  obtain ⟨after, hread, hafter⟩ := @Applet.ready_readAll applet
    ⟨Applet.label, Applet.aid, []⟩ _ _ _ hcard rfl hchunk hsize hmiddle
  refine ⟨after, ?_, hafter⟩
  have hselect' : (onTransport (applet.select Applet.label)).runFrom ⟨position, work⟩ =
      (.ok ⟨Applet.label, Applet.aid, []⟩, ⟨position, { work with transport := middle }⟩) :=
    runFrom_onTransport hselect
  have hread' : (onTransport (applet.readAll ⟨Applet.label, Applet.aid, []⟩)).runFrom
      ⟨position, { work with transport := middle }⟩ =
        (.ok rules.flatten, ⟨position, { work with transport := after }⟩) :=
    runFrom_onTransport hread
  show (onTransport (applet.select Applet.label) >>= _).runFrom _ = _
  rw [Step.runFrom_bind_of_ok hselect']
  show (onTransport (applet.readAll _) >>= _).runFrom _ = _
  rw [Step.runFrom_bind_of_ok hread']
  rfl

end OverCard

/-! ## All steps -/

/-- A round trip over a card ends in comparing the rules that the limit of the card allows with all
    of them. -/
theorem runFrom_run_card {applet : Applet Memory} (hcard : applet.card = Memory.card)
    (hlabel : applet.resolve Applet.label = .ok Applet.aid) {work : Replay.State (Link Memory)}
    (hvalid : ∀ rule ∈ work.store.rules, rule.Valid) {encodings : List Bytes}
    (hwritten : Memory.Written work.store.rules encodings)
    (hsize : ∀ octets ∈ encodings, octets.length ≤ Applet.maxStored)
    (htotal : encodings.flatten.length ≤ 0xffffff) (hchunk : 6 ≤ work.transport.card.chunkSize) :
    let limit := work.transport.card.storeLimit
    let snapshot : Snapshot := ⟨Script.print none false work.store.rules, encodings.flatten⟩
    let outcome : Except (Error AppletError) Unit :=
      same encodings.flatten (Memory.within limit encodings).flatten .card
    ∃ link, (run { transport := some applet.transport }).runFrom { work := work } =
        (outcome.map fun _ => ⟨work.store.size, snapshot.script, snapshot.baseline⟩,
          ⟨.after (comparedStage outcome) snapshot, { work with transport := link }⟩) ∧
      link.card.rules = Memory.within limit encodings := by
  intro limit snapshot outcome
  have hencode : Canonical.encode work.store.rules = .ok encodings.flatten :=
    Canonical.encode_eq_ok_iff.mpr ⟨encodings, rfl, hwritten⟩
  -- the four calls of a round trip, one after the other
  have hexport := @runFrom_exportStore _ AppletError { transport := some applet.transport }
    { work := work } rfl _ hencode
  have hclear : (clear : Trip (Link Memory) AppletError Unit).runFrom
      ⟨.after .exported snapshot, work⟩ =
        (.ok (), ⟨.after .cleared snapshot, { work with store := Store.empty }⟩) := rfl
  obtain ⟨middle, hreplay, hmiddle⟩ := @Replay.run_print_card applet
    { work with store := Store.empty } encodings hcard hlabel work.store hvalid hwritten hsize
  have hrestore := @runFrom_restore _ _ { transport := some applet.transport } snapshot
    { work with store := Store.empty } _ _ hreplay
  -- the card holds no more than the store has
  have hfits : (Memory.within limit encodings).flatten.length ≤ 0xffffff := by
    have hle := (Memory.within_sublist limit encodings).flatten.length_le
    omega
  obtain ⟨link, hcheck, hlink⟩ := @runFrom_verifyCard applet work.transport.card _ hcard hlabel
    hchunk hfits encodings.flatten (.after .restored snapshot)
    { work with transport := middle } hmiddle
  have hverify := @runFrom_verify _ _ { transport := some applet.transport } applet.transport rfl
    snapshot { work with transport := middle } { work with transport := link } hencode outcome
    hcheck
  refine ⟨link, ?_, hlink.rules⟩
  rw [run, Step.runFrom_bind_of_ok hexport, Step.runFrom_bind_of_ok hclear,
    Step.runFrom_bind_of_ok hrestore, hverify]

/-- **A round trip over a card shows exactly the rules that the card has lost.**  If the card has
    room for all rules, the round trip is verified and the card holds their encodings.  Otherwise it
    fails at the first rule behind the limit, which has come back as none.  Whatever was on the card
    before, the store holds the same rules in the same order in the end. -/
theorem run_card_of_limit (reader : String) (labels : List (String × Bytes)) (store : Store)
    (link : Link Memory) (output : List String) (encodings : List Bytes)
    (hlabel : (Applet.onCard Memory.card reader labels).resolve Applet.label = .ok Applet.aid)
    (hmade : ∀ rule ∈ store.rules, rule.Made)
    (hencode : store.rules.mapM Rule.encode = .ok encodings)
    (hsize : ∀ octets ∈ encodings, octets.length ≤ 252)
    (htotal : encodings.flatten.length ≤ 0xffffff) (hchunk : 6 ≤ link.card.chunkSize) :
    let transport := (Applet.onCard Memory.card reader labels).transport
    let snapshot : Snapshot := ⟨Script.print none false store.rules, encodings.flatten⟩
    ∃ outcome after,
      (run { transport := some transport }).runFrom { work := ⟨store, link, output⟩ } =
        (outcome, after) ∧
      after.work.store = store ∧
      ((∀ limit, link.card.storeLimit = some limit → store.size ≤ limit) →
        outcome = .ok ⟨store.size, snapshot.script, snapshot.baseline⟩ ∧
        after.position = .after .verified snapshot ∧
        after.work.transport.card.rules = encodings) ∧
      ∀ limit, link.card.storeLimit = some limit → limit < store.size →
        ∃ octets, encodings[limit]? = some octets ∧
          let lost : Error AppletError := .mismatch limit (some octets) none .card
          outcome = .error lost ∧
          lost.report AppletError.report =
            Report.mismatch limit (some (Hex.encode octets)) none "card" ∧
          after.position = .after .failed snapshot ∧
          after.work.transport.card.rules = encodings.take limit := by
  intro transport snapshot
  have hvalid : ∀ rule ∈ store.rules, rule.Valid :=
    fun rule hmem => Rule.made_iff_valid.mp (hmade rule hmem)
  have hwritten := Memory.mapM_encode_eq_ok_iff.mp hencode
  have hcount : store.size = encodings.length := hwritten.length_eq
  have hobjects : ∀ octets ∈ encodings, Canonical.IsRuleObject octets := by
    intro octets hmem
    obtain ⟨rule, -, hrule⟩ := Canonical.exists_of_mem_left hwritten.flip octets hmem
    exact Canonical.isRuleObject_of_encode hrule
  obtain ⟨last, hrun, hlast⟩ := @runFrom_run_card (Applet.onCard Memory.card reader labels) rfl
    hlabel ⟨store, link, output⟩ hvalid encodings hwritten hsize htotal hchunk
  refine ⟨_, _, hrun, rfl, fun hroom => ?_, fun limit hlimit hlost => ?_⟩
  · -- there is room for all, so the card has the whole store
    have hall : Memory.within link.card.storeLimit encodings = encodings := by
      cases hlimit : link.card.storeLimit with
      | none => rfl
      | some limit =>
        have hle := hroom limit hlimit
        exact List.take_of_length_le (by omega)
    rw [hall, same_self]
    exact ⟨rfl, rfl, hlast.trans hall⟩
  · have hlt : limit < encodings.length := by omega
    -- the card keeps the first of them, and the next one is missed
    have hcut : Memory.within link.card.storeLimit encodings = encodings.take limit := by
      rw [hlimit]
      rfl
    rw [hcut, same_take hobjects hlt]
    exact ⟨encodings[limit], List.getElem?_eq_getElem hlt, rfl, rfl, rfl, hlast.trans hcut⟩

/-- Two rules over a card that sends six octets at a time: with room for one of them the second is
    reported, and without a limit both come back. -/
theorem run_card_of_limit_of_two_rules :
    let first : Rule := ⟨⟨.any, [], none⟩, { nfc := some .always }⟩
    let second : Rule := ⟨⟨.aid [0xa0], [], none⟩, { nfc := some .never }⟩
    let store : Store := ⟨[first, second], by decide⟩
    let encodings : List Bytes := [[0xe2, 11, 0xe1, 4, 0xc0, 0, 0xc1, 0, 0xe3, 3, 0xd1, 1, 1],
      [0xe2, 12, 0xe1, 5, 0x4f, 1, 0xa0, 0xc1, 0, 0xe3, 3, 0xd1, 1, 0]]
    let options : Options (Link Memory) AppletError :=
      { transport := some (Applet.onCard Memory.card "" []).transport }
    let small : Link Memory :=
      { card := { rules := [[0xe2, 0]], chunkSize := 6, storeLimit := some 1 } }
    let large : Link Memory := { card := { rules := [[0xe2, 0]], chunkSize := 6 } }
    (∃ after, (run options).runFrom { work := ⟨store, small, []⟩ } =
        (.error (.mismatch 1 encodings[1]? none .card), after) ∧
      after.position.name = "failed" ∧ after.work.store = store) ∧
    ∃ outcome after, (run options).runFrom { work := ⟨store, large, []⟩ } = (.ok outcome, after) ∧
      after.position.name = "verified" ∧ after.work.transport.card.rules = encodings := by
  intro first second store encodings options small large
  have hmade : ∀ rule ∈ store.rules, rule.Made := by
    intro rule hmem
    rcases List.mem_cons.mp hmem with rfl | hmem
    · exact .created (show Rule.create first.asInput = .ok first from rfl)
    · obtain rfl := List.mem_singleton.mp hmem
      exact .created (show Rule.create second.asInput = .ok second from rfl)
  have hencode : store.rules.mapM Rule.encode = .ok encodings := rfl
  have hsize : ∀ octets ∈ encodings, octets.length ≤ 252 := by decide
  constructor
  · obtain ⟨outcome, after, hrun, hstore, -, hlost⟩ := run_card_of_limit "" [] store small []
      encodings rfl hmade hencode hsize (by decide) (by decide)
    obtain ⟨octets, hoctets, rfl, -, hfailed, -⟩ := hlost 1 rfl (by decide)
    rw [hoctets]
    exact ⟨after, hrun, congrArg Position.name hfailed, hstore⟩
  · obtain ⟨outcome, after, hrun, -, hroom, -⟩ := run_card_of_limit "" [] store large []
      encodings rfl hmade hencode hsize (by decide) (by decide)
    obtain ⟨rfl, hverified, hrules⟩ := hroom nofun
    exact ⟨_, after, hrun, congrArg Position.name hverified, hrules⟩

end AccessRules.RoundTrip
