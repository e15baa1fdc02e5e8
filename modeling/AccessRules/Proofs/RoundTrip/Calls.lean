import AccessRules.Proofs.Canonical.Comparing
import AccessRules.Proofs.Step
import AccessRules.RoundTrip

/-!
# The calls of a round trip

Callers call the steps of a round trip one by one, in any order.  `Does` lists all that a call can
do, wherever the round trip stands and whatever the transport answers (`does_step`):

1. **Refusals** — a call that the position does not allow does nothing (`runFrom_of_not_allowed`).

2. **Comparing** — octets are compared by their rules only if they differ, and octets made of the
   same rules do not differ, so nothing but the same octets passes (`same_eq_ok_iff`).

3. **Verification** — so a round trip is verified exactly if the store has the encodings that were
   exported and the card, if there is one, gives the very same octets
   (`runFrom_comparison_eq_ok_iff`).
-/

namespace AccessRules.RoundTrip

variable {σ ε : Type}

/-! ## Calls -/

/-- The steps that callers call one by one. -/
inductive Call
  | exportStore | clear | restore | verify
  deriving DecidableEq, Repr

/-- What a call gives back. -/
inductive Answer
  | done
  | exported (snapshot : Snapshot)
  | restored (progress : Replay.Progress)
  | verified (outcome : Outcome)
  deriving DecidableEq, Repr

namespace Call

/-- The name of a call in failures. -/
def name : Call → String
  | exportStore => "export"
  | clear => "clear"
  | restore => "restore"
  | verify => "verify"

/-- The names of the positions that allow a call. -/
def positions : Call → List String
  | exportStore => ["idle", "verified", "failed"]
  | clear => ["exported"]
  | restore => ["cleared"]
  | verify => ["restored"]

/-- `call.Allowed position` — the call may be made where the round trip stands. -/
def Allowed (call : Call) (position : Position) : Prop := position.name ∈ call.positions

instance (call : Call) (position : Position) : Decidable (call.Allowed position) :=
  inferInstanceAs (Decidable (position.name ∈ call.positions))

/-- What is done on a call. -/
def step (options : Options σ ε) : Call → Trip σ ε Answer
  | exportStore => Answer.exported <$> RoundTrip.exportStore options
  | clear => (fun _ => Answer.done) <$> RoundTrip.clear
  | restore => Answer.restored <$> RoundTrip.restore options
  | verify => Answer.verified <$> RoundTrip.verify options

end Call

/-- `options.ReadsBack octets before after` — the transport, if there is one, gives these octets as
    all that it keeps, which leads it from `before` to `after`. -/
def Options.ReadsBack (options : Options σ ε) (octets : Bytes) (before after : σ) : Prop :=
  match options.transport with
  | none => after = before
  | some transport => ∃ selection middle,
      (transport.select (options.target.getD Script.defaultTarget)).runFrom before =
        (.ok selection, middle) ∧
      (transport.readAll selection).runFrom middle = (.ok octets, after)

/-- `Does options call before run` — what a call can do: its outcome, and where it leaves the round
    trip. -/
inductive Does (options : Options σ ε) :
    Call → State σ → Except (Error ε) Answer × State σ → Prop
  /-- The position does not allow the call. -/
  | refused {call before} (h : ¬ call.Allowed before.position) :
      Does options call before (.error (.misplaced before.position call.name), before)
  /-- The rules in the store have no encoding. -/
  | unwritable {call before flaw} (hcall : call = .exportStore ∨ call = .verify)
      (hencode : Canonical.encode before.work.store.rules = .error flaw) :
      Does options call before (.error (.unwritable flaw), before)
  | exported {before snapshot}
      (hscript : snapshot.script = Script.print options.target false before.work.store.rules)
      (hencode : Canonical.encode before.work.store.rules = .ok snapshot.baseline) :
      Does options .exportStore before
        (.ok (.exported snapshot), ⟨.after .exported snapshot, before.work⟩)
  | cleared {snapshot work} :
      Does options .clear ⟨.after .exported snapshot, work⟩
        (.ok .done, ⟨.after .cleared snapshot, { work with store := Store.empty }⟩)
  | restored {snapshot work progress after}
      (hreplay : (Replay.run options.transport snapshot.script).runFrom work =
        (.ok progress, after)) :
      Does options .restore ⟨.after .cleared snapshot, work⟩
        (.ok (.restored progress), ⟨.after .restored snapshot, after⟩)
  /-- The script is not carried out to its end. -/
  | stopped {snapshot work error after}
      (hreplay : (Replay.run options.transport snapshot.script).runFrom work =
        (.error error, after)) :
      Does options .restore ⟨.after .cleared snapshot, work⟩
        (.error (.script error), ⟨.after .failed snapshot, after⟩)
  | verified {snapshot work transport}
      (hencode : Canonical.encode work.store.rules = .ok snapshot.baseline)
      (hread : options.ReadsBack snapshot.baseline work.transport transport) :
      Does options .verify ⟨.after .restored snapshot, work⟩
        (.ok (.verified ⟨work.store.size, snapshot.script, snapshot.baseline⟩),
          ⟨.after .verified snapshot, { work with transport := transport }⟩)
  /-- What came back differs from what was exported, or cannot be read. -/
  | differs {snapshot work error transport}
      (hdiffers : ∀ reached, ¬ (Canonical.encode work.store.rules = .ok snapshot.baseline ∧
        options.ReadsBack snapshot.baseline work.transport reached)) :
      Does options .verify ⟨.after .restored snapshot, work⟩
        (.error error, ⟨.after .failed snapshot, { work with transport := transport }⟩)

/-! ## Refusals -/

/-- A call that the position does not allow does nothing. -/
theorem runFrom_of_not_allowed (options : Options σ ε) {call : Call} {state : State σ}
    (h : ¬ call.Allowed state.position) :
    (call.step options).runFrom state = (.error (.misplaced state.position call.name), state) := by
  obtain ⟨position, work⟩ := state
  -- six positions for each of four calls: the position is either one of the call's or refused
  cases call <;> rcases position with _ | ⟨_ | _ | _ | _ | _, snapshot⟩ <;>
    first
      | rfl
      | exact absurd (by simp [Call.Allowed, Position.name, Call.positions]) h

/-- Where a round trip stands that allows a call. -/
theorem Call.Allowed.shape {call : Call} {position : Position} (h : call.Allowed position) :
    match call with
    | exportStore => position.isOver = true
    | clear => ∃ snapshot, position = .after .exported snapshot
    | restore => ∃ snapshot, position = .after .cleared snapshot
    | verify => ∃ snapshot, position = .after .restored snapshot := by
  cases call <;> rcases position with _ | ⟨_ | _ | _ | _ | _, snapshot⟩ <;>
    first
      | rfl
      | exact ⟨snapshot, rfl⟩
      | simp [Call.Allowed, Position.name, Call.positions] at h

/-! ## Comparing -/

/-- Nothing but the same octets passes as the same. -/
theorem same_eq_ok_iff {expected actual : Bytes} {source : Source} {u : Unit} :
    (same expected actual source : Except (Error ε) Unit) = .ok u ↔ expected = actual := by
  rw [← Canonical.mismatch?_eq_none_iff, same, bind_eq_ok_iff]
  constructor
  · rintro ⟨index, hindex, h⟩
    cases index with
    | none => exact mapError_eq_ok_iff.mp hindex
    | some index =>
      obtain ⟨wanted, -, h⟩ := bind_eq_ok_iff.mp h
      obtain ⟨found, -, h⟩ := bind_eq_ok_iff.mp h
      cases h
  · intro h
    exact ⟨none, mapError_eq_ok_iff.mpr h, rfl⟩

/-! ## Verification -/

/-- What a comparison leaves alone: all but the state of the transport. -/
def frame (state : State σ) : Position × Store × List String :=
  (state.position, state.work.store, state.work.output)

/-- A state with the same frame differs in the transport alone. -/
theorem eq_of_frame_eq {before after : State σ} (h : frame after = frame before) :
    after = { before with work := { before.work with transport := after.work.transport } } := by
  obtain ⟨position, store, transport, output⟩ := after
  obtain ⟨rfl, hwork⟩ := Prod.mk.inj h
  obtain ⟨rfl, rfl⟩ := Prod.mk.inj hwork
  rfl

/-- What a verification compares with a snapshot: the encodings of the rules in the store, and what
    the transport reads back if there is one. -/
def comparison (options : Options σ ε) (snapshot : Snapshot) (canonical : Bytes) :
    Trip σ ε Unit := do
  Step.lift (same snapshot.baseline canonical .store)
  match options.transport with
  | none => pure ()
  | some transport =>
    verifyCard transport (options.target.getD Script.defaultTarget) snapshot.baseline

/-- Verifying the card talks to it and changes nothing else. -/
theorem keeps_verifyCard (transport : Transport σ ε) (label : String) (baseline : Bytes) :
    Step.Keeps frame (verifyCard transport label baseline) := by
  have honTransport : ∀ {α : Type} (step : Step σ ε α), Step.Keeps frame (onTransport step) :=
    fun step state => rfl
  exact (honTransport _).bind fun selection => (honTransport _).bind fun octets =>
    Step.keeps_lift _

/-- So does the whole comparison. -/
theorem keeps_comparison (options : Options σ ε) (snapshot : Snapshot) (canonical : Bytes) :
    Step.Keeps frame (comparison options snapshot canonical) := by
  refine (Step.keeps_lift _).bind fun _ => ?_
  cases options.transport with
  | none => exact Step.keeps_pure ()
  | some transport => exact keeps_verifyCard transport _ _

/-- What is done on the transport succeeds as it does there. -/
theorem runFrom_onTransport_eq_ok_iff {α : Type} {step : Step σ ε α} {before after : State σ}
    {a : α} :
    (onTransport step).runFrom before = (.ok a, after) ↔
      ∃ transport, step.runFrom before.work.transport = (.ok a, transport) ∧
        after = { before with work := { before.work with transport := transport } } := by
  rw [onTransport, Step.runFrom_within, Step.runFrom_mapError]
  constructor
  · intro h
    obtain ⟨houtcome, rfl⟩ := Prod.mk.inj h
    exact ⟨_, Prod.ext (mapError_eq_ok_iff.mp houtcome) rfl, rfl⟩
  · rintro ⟨transport, hrun, rfl⟩
    rw [hrun]
    rfl

/-- What is read back from the card passes exactly if it is what was exported. -/
theorem runFrom_verifyCard_eq_ok_iff {transport : Transport σ ε} {label : String}
    {baseline : Bytes} {before after : State σ} :
    (verifyCard transport label baseline).runFrom before = (.ok (), after) ↔
      ∃ selection middle reached,
        (transport.select label).runFrom before.work.transport = (.ok selection, middle) ∧
        (transport.readAll selection).runFrom middle = (.ok baseline, reached) ∧
        after = { before with work := { before.work with transport := reached } } := by
  simp only [verifyCard, Step.runFrom_bind_eq_ok_iff, runFrom_onTransport_eq_ok_iff,
    Step.runFrom_lift, Prod.mk.injEq, same_eq_ok_iff]
  constructor
  · rintro ⟨selection, _, ⟨middle, hselect, rfl⟩, _, _, ⟨reached, hread, rfl⟩, rfl, rfl⟩
    exact ⟨selection, middle, reached, hselect, hread, rfl⟩
  · rintro ⟨selection, middle, reached, hselect, hread, rfl⟩
    exact ⟨selection, _, ⟨middle, hselect, rfl⟩, baseline, _, ⟨reached, hread, rfl⟩, rfl, rfl⟩

/-- A comparison passes exactly if the store and the transport give what was exported. -/
theorem runFrom_comparison_eq_ok_iff {options : Options σ ε} {snapshot : Snapshot}
    {canonical : Bytes} {before after : State σ} :
    (comparison options snapshot canonical).runFrom before = (.ok (), after) ↔
      snapshot.baseline = canonical ∧
        ∃ reached, options.ReadsBack snapshot.baseline before.work.transport reached ∧
          after = { before with work := { before.work with transport := reached } } := by
  simp only [comparison, Step.runFrom_bind_eq_ok_iff, Step.runFrom_lift, Prod.mk.injEq,
    same_eq_ok_iff]
  unfold Options.ReadsBack
  -- without a transport the store alone is compared
  cases options.transport with
  | none =>
    simp only [Step.runFrom_pure, Prod.mk.injEq, true_and, exists_eq_left]
    constructor
    · rintro ⟨-, _, ⟨hsame, rfl⟩, rfl⟩
      exact ⟨hsame, rfl⟩
    · rintro ⟨hsame, rfl⟩
      exact ⟨(), before, ⟨hsame, rfl⟩, rfl⟩
  | some transport =>
    simp only [runFrom_verifyCard_eq_ok_iff]
    constructor
    · rintro ⟨-, _, ⟨hsame, rfl⟩, selection, middle, reached, hselect, hread, rfl⟩
      exact ⟨hsame, reached, ⟨selection, middle, hselect, hread⟩, rfl⟩
    · rintro ⟨hsame, reached, ⟨selection, middle, hselect, hread⟩, rfl⟩
      exact ⟨(), before, ⟨hsame, rfl⟩, selection, middle, reached, hselect, hread, rfl⟩

/-- Verifying encodes the store, compares it and moves on. -/
theorem runFrom_verify_restored (options : Options σ ε) (snapshot : Snapshot)
    (work : Replay.State σ) :
    (verify options).runFrom ⟨.after .restored snapshot, work⟩ =
      (do
        let canonical ← Step.lift ((Canonical.encode work.store.rules).mapError Error.unwritable)
        orFail (comparison options snapshot canonical)
        moveTo (.after .verified snapshot)
        return ⟨work.store.size, snapshot.script, canonical⟩ :
          Trip σ ε Outcome).runFrom ⟨.after .restored snapshot, work⟩ := rfl

/-- Verifying what has been restored comes to what is listed. -/
theorem does_verify (options : Options σ ε) (snapshot : Snapshot) (work : Replay.State σ) :
    Does options .verify ⟨.after .restored snapshot, work⟩
      ((Call.verify.step options).runFrom ⟨.after .restored snapshot, work⟩) := by
  rw [Call.step, Step.runFrom_map, runFrom_verify_restored]
  cases hencode : Canonical.encode work.store.rules with
  | error flaw => exact .unwritable (.inr rfl) hencode
  | ok canonical =>
    rw [Step.runFrom_bind_of_ok (Step.runFrom_lift_mapError rfl _ _), Step.runFrom_bind, orFail,
      Step.runFrom_onFailure]
    cases hrun : (comparison options snapshot canonical).runFrom
        ⟨.after .restored snapshot, work⟩ with
    | mk outcome after =>
      cases outcome with
      | error e =>
        -- the state is the one from before but for what was said to the card
        have hframe :=
          keeps_comparison options snapshot canonical ⟨.after .restored snapshot, work⟩
        rw [hrun] at hframe
        have hafter : after = ⟨.after .restored snapshot,
            { work with transport := after.work.transport }⟩ := eq_of_frame_eq hframe
        -- if both comparisons held, the step would have succeeded
        have hdiffers : ∀ reached, ¬ (Canonical.encode work.store.rules = .ok snapshot.baseline ∧
            options.ReadsBack snapshot.baseline work.transport reached) := by
          rintro reached ⟨hsame, hread⟩
          rw [hencode] at hsame
          have hpasses : (comparison options snapshot canonical).runFrom
              ⟨.after .restored snapshot, work⟩ = (.ok (),
                ⟨.after .restored snapshot, { work with transport := reached }⟩) :=
            runFrom_comparison_eq_ok_iff.mpr ⟨(Except.ok.inj hsame).symm, reached, hread, rfl⟩
          rw [hrun] at hpasses
          cases hpasses
        show Does _ _ _ (.error e, ⟨after.position.fail, after.work⟩)
        rw [hafter]
        exact .differs hdiffers
      | ok _ =>
        obtain ⟨rfl, reached, hread, rfl⟩ := runFrom_comparison_eq_ok_iff.mp hrun
        exact .verified hencode hread

/-! ## All calls -/

/-- An export captures the script and the encodings of the rules. -/
theorem runFrom_exportStore (options : Options σ ε) {state : State σ}
    (hover : state.position.isOver = true) {baseline : Bytes}
    (h : Canonical.encode state.work.store.rules = .ok baseline) :
    (exportStore options).runFrom state =
      (.ok ⟨Script.print options.target false state.work.store.rules, baseline⟩,
        ⟨.after .exported ⟨Script.print options.target false state.work.store.rules, baseline⟩,
          state.work⟩) := by
  rw [exportStore, Step.runFrom_bind_of_ok (Step.runFrom_get _),
    Step.runFrom_bind_of_ok (Step.runFrom_require hover _ _),
    Step.runFrom_bind_of_ok (Step.runFrom_lift_mapError h _ _)]
  rfl

/-- Exporting outside a round trip comes to what is listed. -/
theorem does_exportStore (options : Options σ ε) {state : State σ}
    (h : state.position.isOver = true) :
    Does options .exportStore state ((Call.exportStore.step options).runFrom state) := by
  rw [Call.step, Step.runFrom_map]
  cases hencode : Canonical.encode state.work.store.rules with
  | ok baseline =>
    rw [runFrom_exportStore options h hencode]
    exact .exported rfl hencode
  | error flaw =>
    -- the encoding fails before the position is changed
    rw [exportStore, Step.runFrom_bind_of_ok (Step.runFrom_get _),
      Step.runFrom_bind_of_ok (Step.runFrom_require h _ _)]
    dsimp only
    rw [hencode]
    exact .unwritable (.inl rfl) hencode

/-- A replay that succeeds restores. -/
theorem runFrom_restore {options : Options σ ε} {snapshot : Snapshot} {work after : Replay.State σ}
    {progress : Replay.Progress}
    (h : (Replay.run options.transport snapshot.script).runFrom work = (.ok progress, after)) :
    (restore options).runFrom ⟨.after .cleared snapshot, work⟩ =
      (.ok progress, ⟨.after .restored snapshot, after⟩) := by
  have hreplay : (orFail (((Replay.run options.transport snapshot.script).mapError
      Error.script).within State.work fun state work => { state with work := work })).runFrom
        ⟨.after .cleared snapshot, work⟩ = (.ok progress, ⟨.after .cleared snapshot, after⟩) := by
    rw [orFail, Step.runFrom_onFailure, Step.runFrom_within, Step.runFrom_mapError, h]
    rfl
  rw [restore, Step.runFrom_bind_of_ok (Step.runFrom_get _)]
  dsimp only
  rw [Step.runFrom_bind_of_ok hreplay]
  rfl

/-- A replay that fails ends the round trip. -/
theorem runFrom_restore_of_error {options : Options σ ε} {snapshot : Snapshot}
    {work after : Replay.State σ} {error : Script.Numbered (Replay.Reason ε)}
    (h : (Replay.run options.transport snapshot.script).runFrom work = (.error error, after)) :
    (restore options).runFrom ⟨.after .cleared snapshot, work⟩ =
      (.error (.script error), ⟨.after .failed snapshot, after⟩) := by
  rw [restore, Step.runFrom_bind_of_ok (Step.runFrom_get _)]
  dsimp only
  rw [Step.runFrom_bind, orFail, Step.runFrom_onFailure, Step.runFrom_within,
    Step.runFrom_mapError, h]
  rfl

/-- Restoring what has been cleared comes to what is listed. -/
theorem does_restore (options : Options σ ε) (snapshot : Snapshot) (work : Replay.State σ) :
    Does options .restore ⟨.after .cleared snapshot, work⟩
      ((Call.restore.step options).runFrom ⟨.after .cleared snapshot, work⟩) := by
  rw [Call.step, Step.runFrom_map, restore, Step.runFrom_bind_of_ok (Step.runFrom_get _)]
  dsimp only
  rw [Step.runFrom_bind, orFail, Step.runFrom_onFailure, Step.runFrom_within,
    Step.runFrom_mapError]
  cases hreplay : (Replay.run options.transport snapshot.script).runFrom work with
  | mk outcome after =>
    cases outcome with
    | error e => exact .stopped hreplay
    | ok progress => exact .restored hreplay

/-- A call does nothing but what is listed. -/
theorem does_step (options : Options σ ε) (call : Call) (state : State σ) :
    Does options call state ((call.step options).runFrom state) := by
  by_cases hallowed : call.Allowed state.position
  · obtain ⟨position, work⟩ := state
    -- a call that is allowed finds the snapshot it needs in the position
    have hshape := hallowed.shape
    cases call with
    | exportStore => exact does_exportStore options hshape
    | clear =>
      obtain ⟨snapshot, rfl⟩ := hshape
      exact .cleared
    | restore =>
      obtain ⟨snapshot, rfl⟩ := hshape
      exact does_restore options snapshot work
    | verify =>
      obtain ⟨snapshot, rfl⟩ := hshape
      exact does_verify options snapshot work
  · rw [runFrom_of_not_allowed options hallowed]
    exact .refused hallowed

end AccessRules.RoundTrip
