import AccessRules.Proofs.Applet.Storing
import AccessRules.Proofs.Replay.Lines
import AccessRules.Proofs.Script.Printing

/-!
# A card mirrors the store

A replay over a card carries every operation out twice, on the card and on the store.  If the card
holds the encodings of the rules in the store, it does so again after every line of every script,
however the scripts end (`history_mirrors`).

1. **The invariant** — `InStep state` says that the card holds the encodings, that the rules are
   valid, and that the card loses none.  It is kept by whatever changes no rule on the card
   (`InStep.of_kept`).

2. **One operation** — the card goes first.  If it fails, it has changed no rule and the store is
   not changed; if it succeeds, the store does the same (`inStep_execute`).

3. **All lines** — by induction on the lines and the scripts.  A target that has been selected over
   a card has a selection, so no operation leaves the card out.
-/

namespace AccessRules.Replay

/-- `Mirrors state` — the card holds the encodings of the rules in the store, in the same order. -/
def Mirrors (state : State (Link Memory)) : Prop :=
  state.store.rules.mapM Rule.encode = .ok state.transport.card.rules

/-! ## The invariant -/

/-- `InStep state` — the card holds the encodings of the rules in the store, which are valid, and
    has no limit. -/
structure InStep (state : State (Link Memory)) : Prop where
  written : Memory.Written state.store.rules state.transport.card.rules
  valid : ∀ rule ∈ state.store.rules, rule.Valid
  unlimited : state.transport.card.storeLimit = none

/-- The card in step holds the encodings of the store. -/
theorem InStep.mirrors {state : State (Link Memory)} (h : InStep state) : Mirrors state :=
  Memory.mapM_encode_eq_ok_iff.mpr h.written

/-- What changes no rule leaves a card in step. -/
theorem InStep.of_kept {state : State (Link Memory)} (h : InStep state) {link : Link Memory}
    (hkept : Applet.kept link = Applet.kept state.transport) (output : List String) :
    InStep ⟨state.store, link, output⟩ := by
  obtain ⟨hrules, hlimit⟩ := Prod.mk.inj hkept
  refine ⟨?_, h.valid, hlimit.trans h.unlimited⟩
  show Memory.Written state.store.rules link.card.rules
  rw [hrules]
  exact h.written

/-! ## One operation -/

variable {applet : Applet Memory} {state : State (Link Memory)}

/-- `Stays run` — the run ends in step and, if it ends with a target, that has been selected on the
    card. -/
def Stays {ε : Type} (run : Except ε Target × State (Link Memory)) : Prop :=
  InStep run.2 ∧ ∀ target, run.1 = .ok target → target.selection.isSome

/-- A step that leaves a target of the card stays in step. -/
theorem stays_ok {ε : Type} {label : String} {selection : Selection} (h : InStep state) :
    Stays ((.ok ⟨label, some selection⟩, state) : Except ε Target × _) :=
  ⟨h, fun _ heq => Except.ok.inj heq ▸ rfl⟩

/-- So does a step that fails. -/
theorem stays_error {ε : Type} {e : ε} (h : InStep state) : Stays (.error e, state) := ⟨h, nofun⟩

section OnTransport

variable {α : Type} {step : Step (Link Memory) AppletError α}
  {next : α → Step (State (Link Memory)) (Reason AppletError) Target}

/-- The card first changes no rule, and then the rest of the operation stays in step. -/
theorem stays_of_keeps (h : InStep state) (hstep : Step.Keeps Applet.kept step)
    (hnext : ∀ a state, InStep state → Stays ((next a).runFrom state)) :
    Stays ((onTransport step >>= next).runFrom state) := by
  have hkept := hstep state.transport
  rw [Step.runFrom_bind, onTransport, Step.runFrom_within, Step.runFrom_mapError]
  cases hrun : step.runFrom state.transport with
  | mk outcome link =>
    rw [hrun] at hkept
    cases outcome with
    | error e => exact stays_error (h.of_kept hkept _)
    | ok a => exact hnext a _ (h.of_kept hkept _)

/-- The card first carries out STORE DATA, and then the rest of the operation gets in step. -/
theorem stays_of_sends (h : InStep state) {object : Bytes → Prop}
    (hstep : Applet.Sends object step)
    (hnext : ∀ a data before link, object data → before.kept = Applet.kept state.transport →
      Memory.storeData data before = .ok (Memory.done, link.card) →
      Stays ((next a).runFrom { state with transport := link })) :
    Stays ((onTransport step >>= next).runFrom state) := by
  have hsent := hstep state.transport
  rw [Step.runFrom_bind, onTransport, Step.runFrom_within, Step.runFrom_mapError]
  cases hrun : step.runFrom state.transport with
  | mk outcome link =>
    rw [hrun] at hsent
    cases outcome with
    | error e => exact stays_error (h.of_kept hsent _)
    | ok a =>
      obtain ⟨data, before, hdata, hkept, hstored⟩ := hsent
      exact hnext a data before link hdata hkept hstored

end OnTransport

/-- Selecting a target keeps the rules on both sides. -/
theorem stays_selectTarget (hcard : applet.card = Memory.card) (last : Option Target)
    (label : String) (h : InStep state) :
    Stays ((execute (some applet.transport) last (.selectTarget label)).runFrom state) :=
  stays_of_keeps h (Applet.keeps_select hcard label) fun _ _ h => stays_ok h

/-- After the command that deletes all rules there are none on either side. -/
theorem stays_deleteAll (hcard : applet.card = Memory.card) (label : String)
    (selection : Selection) (h : InStep state) :
    Stays ((execute (some applet.transport) (some ⟨label, some selection⟩) .deleteAll).runFrom
      state) := by
  refine stays_of_sends h (Applet.sends_deleteAll hcard selection) ?_
  intro _ data before link hdata hkept hstored
  -- the card has carried out the command, so the store is emptied too
  rw [Memory.storeData_delete hdata] at hstored
  have hafter := (Prod.mk.inj (Except.ok.inj hstored)).2
  refine stays_ok ⟨?_, nofun, ?_⟩
  · show Memory.Written [] link.card.rules
    rw [← hafter]
    exact .nil
  · show link.card.storeLimit = none
    rw [← hafter]
    exact (Prod.mk.inj hkept).2.trans h.unlimited

/-- A rule that is stored replaces the one with its key on both sides. -/
theorem stays_storeRule (hcard : applet.card = Memory.card) (label : String)
    (selection : Selection) {rule : Rule} (hrule : rule.Valid) (h : InStep state) :
    Stays ((execute (some applet.transport) (some ⟨label, some selection⟩)
      (.storeRule rule)).runFrom state) := by
  show Stays (((encoded rule.encode >>= fun octets =>
    onTransport (applet.send selection octets)) >>= _).runFrom state)
  cases hencode : rule.encode with
  -- without an encoding nothing is sent, and nothing is stored
  | error flaw => exact stays_error h
  | ok octets =>
    refine stays_of_sends h (Applet.sends_send hcard selection hencode) ?_
    intro _ data before link hdata hkept hstored
    -- selecting may have come before the command, but it kept the rules
    obtain ⟨hrules, hlimit⟩ := Prod.mk.inj hkept
    have hwritten : Memory.Written state.store.rules before.rules := by
      rw [hrules]
      exact h.written
    obtain ⟨encodings, hstore, hinserted⟩ := Memory.storeData_of_encode
      (hlimit.trans h.unlimited) hwritten h.valid hrule hencode hdata
    rw [hstore] at hstored
    have hafter := (Prod.mk.inj (Except.ok.inj hstored)).2
    refine stays_ok ⟨?_, ?_, ?_⟩
    · show Memory.Written (state.store.insert rule).rules link.card.rules
      rw [← hafter]
      exact hinserted
    · intro other hmem
      rcases List.mem_append.mp hmem with hold | hnew
      · exact h.valid other (List.mem_of_mem_filter hold)
      · exact List.mem_singleton.mp hnew ▸ hrule
    · show link.card.storeLimit = none
      rw [← hafter]
      exact hlimit.trans h.unlimited

/-- Reading all rules keeps them on both sides. -/
theorem stays_readAll (hcard : applet.card = Memory.card) (label : String)
    (selection : Selection) (h : InStep state) :
    Stays ((execute (some applet.transport) (some ⟨label, some selection⟩) .readAll).runFrom
      state) :=
  stays_of_keeps h (Applet.keeps_readAll hcard selection) fun _ _ h =>
    stays_ok (h.of_kept rfl _)

/-- An operation leaves the card in step, whether it succeeds or fails. -/
theorem stays_execute (hcard : applet.card = Memory.card) {last : Option Target}
    (hlast : ∀ target ∈ last, target.selection.isSome) {operation : Operation}
    (hoperation : operation.Printable) (h : InStep state) :
    Stays ((execute (some applet.transport) last operation).runFrom state) := by
  cases last with
  | none =>
    -- without a target nothing but selecting one is carried out
    cases operation with
    | selectTarget label => exact stays_selectTarget hcard none label h
    | deleteAll | storeRule | readAll => exact stays_error h
  | some target =>
    obtain ⟨label, selection⟩ := target
    obtain ⟨selection, rfl⟩ := Option.isSome_iff_exists.mp (hlast _ rfl)
    cases operation with
    | selectTarget label => exact stays_selectTarget hcard _ label h
    | deleteAll => exact stays_deleteAll hcard label selection h
    | storeRule rule => exact stays_storeRule hcard label selection hoperation h
    | readAll => exact stays_readAll hcard label selection h

/-! ## All lines -/

/-- A line leaves the card in step, whatever stands on it. -/
theorem inStep_line (hcard : applet.card = Memory.card) (progress : Progress) (text : String)
    (state : State (Link Memory)) (hlast : ∀ target ∈ progress.target, target.selection.isSome)
    (h : InStep state) :
    InStep ((line (some applet.transport) progress text).runFrom state).2 ∧
      ∀ next, ((line (some applet.transport) progress text).runFrom state).1 = .ok next →
        ∀ target ∈ next.target, target.selection.isSome := by
  cases hparse : Operation.parse? text with
  | error flaw =>
    rw [line, hparse]
    refine ⟨h, fun next heq => ?_⟩
    cases heq
  | ok operation =>
    cases operation with
    | none =>
      rw [runFrom_line_of_none hparse]
      exact ⟨h, fun next heq => Except.ok.inj heq ▸ hlast⟩
    | some operation =>
      -- an operation that is read off a line is one that can be printed
      have hstays := stays_execute hcard hlast (Operation.printable_of_parse? hparse) h
      rw [line, hparse]
      show InStep ((execute _ _ _ >>= _).runFrom state).2 ∧ ∀ next,
        ((execute _ _ _ >>= _).runFrom state).1 = _ → _
      rw [Step.runFrom_bind]
      cases hrun : (execute (some applet.transport) progress.target operation).runFrom state with
      | mk outcome after =>
        rw [hrun] at hstays
        cases outcome with
        | error reason =>
          refine ⟨hstays.1, fun next heq => ?_⟩
          cases heq
        | ok target =>
          refine ⟨hstays.1, fun next heq => ?_⟩
          rw [← Except.ok.inj heq]
          rintro _ ⟨⟩
          exact hstays.2 target rfl

/-- **A card that mirrors the store does so after every line of all scripts**, if it has no limit,
    whatever its selection, its pending answer and the size of its pieces are, and whatever labels
    stand for. -/
theorem history_mirrors (reader : String) (labels : List (String × Bytes)) (scripts : List String)
    {start : State (Link Memory)} (hmade : ∀ rule ∈ start.store.rules, rule.Made)
    (hlimit : start.transport.card.storeLimit = none) (hmirrors : Mirrors start) :
    ∀ after ∈ history (some (Applet.onCard Memory.card reader labels).transport) scripts start,
      Mirrors after := by
  have hstart : InStep start := ⟨Memory.mapM_encode_eq_ok_iff.mp hmirrors,
    fun rule hmem => Rule.made_iff_valid.mp (hmade rule hmem), hlimit⟩
  intro after hmem
  have hafter : InStep after := @forall_mem_history _ _ _ _ InStep
    (fun progress => ∀ target ∈ progress.target, target.selection.isSome)
    (inStep_line rfl) nofun scripts hstart after hmem
  exact hafter.mirrors

/-- A script that fails behind a rule with the key of the one before, and one that names no
    target. -/
theorem history_mirrors_of_failing_scripts :
    let rule : Rule := ⟨⟨.any, [], none⟩, { nfc := some .always }⟩
    let memory : Memory :=
      { rules := [[0xe2, 11, 0xe1, 4, 0xc0, 0, 0xc1, 0, 0xe3, 3, 0xd1, 1, 1]], chunkSize := 1 }
    let start : State (Link Memory) :=
      { store := ⟨[rule], by decide⟩, transport := ⟨memory, none, #[]⟩ }
    ∀ after ∈ history (some (Applet.onCard Memory.card "reader" []).transport)
        ["select-target ADF.ARA-M\nstore-rule --aid-empty --device-app-id empty --nfc-never\nstop",
          "delete-all"] start,
      Mirrors after := by
  intro rule memory start
  have hmade : ∀ other ∈ start.store.rules, other.Made := by
    intro other hmem
    obtain rfl := List.mem_singleton.mp hmem
    exact .created (show Rule.create rule.asInput = .ok rule from rfl)
  exact history_mirrors "reader" [] _ hmade rfl rfl

end AccessRules.Replay
