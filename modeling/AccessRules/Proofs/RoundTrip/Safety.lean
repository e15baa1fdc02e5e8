import AccessRules.Proofs.Canonical.NormalForm
import AccessRules.Proofs.Rule.Decoding
import AccessRules.Proofs.RoundTrip.Calls

/-!
# Round trips are safe in any order of calls

Callers make calls in any order, whole runs among them, and others change the store in between.
Whatever the transport answers, a round trip is not verified by mistake and does not lose what was
exported (`history_safe`):

1. **Moments** — what happens is a list of moments, each with the round trip before and after it
   (`history`).  A run is as good as its four calls one after the other up to the first that fails
   (`runFrom_event`), so only calls need to be looked at.

2. **One moment** — a moment exports a snapshot or keeps the one that is there
   (`snapshot?_moment`), and it verifies exactly what compares equal (`verified_moment_iff`).

3. **All moments** — by induction on the moments the snapshot is that of the latest export
   (`Follows.snapshot?_eq`), from which the store of that export is read.
-/

namespace AccessRules.RoundTrip

variable {σ ε : Type}

/-! ## Moments -/

/-- What is done: a call, or what others do meanwhile to the store, or even on the card. -/
inductive Act (σ : Type)
  | made (call : Call)
  | others (change : Replay.State σ → Replay.State σ)

def Act.step (options : Options σ ε) : Act σ → Trip σ ε Answer
  | .made call => call.step options
  | .others change => do
    modify fun state => { state with work := change state.work }
    return .done

/-- What is done at one time, what comes of it, and the round trip before and after it. -/
structure Moment (σ ε : Type) where
  act : Act σ
  before : State σ
  outcome : Except (Error ε) Answer
  after : State σ

/-- The moment of an act. -/
def Act.moment (options : Options σ ε) (act : Act σ) (state : State σ) : Moment σ ε :=
  let run := (act.step options).runFrom state
  ⟨act, state, run.1, run.2⟩

/-- The moments of some acts one after the other, up to the first that fails. -/
def momentsOf (options : Options σ ε) : List (Act σ) → State σ → List (Moment σ ε)
  | [], _ => []
  | act :: acts, state =>
    let moment := act.moment options state
    match moment.outcome with
    | .ok _ => moment :: momentsOf options acts moment.after
    | .error _ => [moment]

/-- What happens to a round trip: an act, or a whole run. -/
inductive Event (σ : Type)
  | one (act : Act σ)
  | run

def Event.step (options : Options σ ε) : Event σ → Trip σ ε Answer
  | .one act => act.step options
  | .run => Answer.verified <$> RoundTrip.run options

/-- The acts that an event is made of. -/
def Event.acts : Event σ → List (Act σ)
  | .one act => [act]
  | .run => [.made .exportStore, .made .clear, .made .restore, .made .verify]

/-- The moments of all events, each of which starts where the one before it has ended. -/
def history (options : Options σ ε) : List (Event σ) → State σ → List (Moment σ ε)
  | [], _ => []
  | event :: events, state =>
    momentsOf options event.acts state ++
      history options events ((event.step options).runFrom state).2

/-- The store that was exported at a moment, and the snapshot of it. -/
def Moment.export? : Moment σ ε → Option (Store × Snapshot)
  | ⟨.made .exportStore, before, .ok (.exported snapshot), _⟩ => some (before.work.store, snapshot)
  | _ => none

/-- The latest export. -/
def latestExport? (moments : List (Moment σ ε)) : Option (Store × Snapshot) :=
  (moments.filterMap Moment.export?).getLast?

/-! ## Runs -/

/-- Some acts one after the other, as one step. -/
def inOrder (options : Options σ ε) (act : Act σ) : List (Act σ) → Trip σ ε Answer
  | [] => act.step options
  | next :: acts => do
    let _ ← act.step options
    inOrder options next acts

/-- A whole round trip makes the four calls in order. -/
theorem run_eq_inOrder (options : Options σ ε) :
    Answer.verified <$> run options =
      inOrder options (.made .exportStore) [.made .clear, .made .restore, .made .verify] := by
  simp only [run, inOrder, Act.step, Call.step, map_bind, bind_map_left]

/-- Acts in order end where the last of their moments ends. -/
theorem runFrom_inOrder (options : Options σ ε) (act : Act σ) (acts : List (Act σ))
    (state : State σ) :
    ∃ earlier last, momentsOf options (act :: acts) state = earlier ++ [last] ∧
      (inOrder options act acts).runFrom state = (last.outcome, last.after) := by
  induction acts generalizing act state with
  | nil =>
    refine ⟨[], act.moment options state, ?_, rfl⟩
    rw [momentsOf]
    cases (act.moment options state).outcome <;> rfl
  | cons next acts ih =>
    rw [momentsOf, inOrder, Step.runFrom_bind]
    cases hrun : (act.step options).runFrom state with
    | mk outcome after =>
      have hmoment : act.moment options state = ⟨act, state, outcome, after⟩ := by
        rw [Act.moment, hrun]
      rw [hmoment]
      cases outcome with
      -- a call that fails is the last of its event
      | error e => exact ⟨[], _, rfl, rfl⟩
      | ok answer =>
        obtain ⟨earlier, last, hmoments, hlast⟩ := ih next after
        refine ⟨⟨act, state, .ok answer, after⟩ :: earlier, last, ?_, hlast⟩
        show _ :: momentsOf options (next :: acts) after = _
        rw [hmoments, List.cons_append]

/-- An event ends where the last of its moments ends. -/
theorem runFrom_event (options : Options σ ε) (event : Event σ) (state : State σ) :
    ∃ earlier last, momentsOf options event.acts state = earlier ++ [last] ∧
      (event.step options).runFrom state = (last.outcome, last.after) := by
  cases event with
  | one act => exact runFrom_inOrder options act [] state
  | run =>
    rw [Event.step, run_eq_inOrder]
    exact runFrom_inOrder options (.made .exportStore) _ state

/-! ## One moment -/

section OneMoment

variable (options : Options σ ε) (act : Act σ) (state : State σ)

/-- A moment is one of its act. -/
@[simp] theorem act_moment : (act.moment options state).act = act := rfl

/-- A moment starts from the state that the act finds. -/
@[simp] theorem before_moment : (act.moment options state).before = state := rfl

/-- A call that the position does not allow is refused, and nothing changes. -/
theorem refused_moment {call : Call} (h : ¬ call.Allowed state.position) :
    (Act.made call).moment options state =
      ⟨.made call, state, .error (.misplaced state.position call.name), state⟩ := by
  rw [Act.moment, Act.step, runFrom_of_not_allowed options h]

/-- A moment exports a snapshot or keeps the one that is there. -/
theorem snapshot?_moment :
    (act.moment options state).after.position.snapshot? =
      ((act.moment options state).export?.map Prod.snd).or state.position.snapshot? := by
  cases act with
  | others change => rfl
  | made call =>
    have hdoes := does_step options call state
    rw [Act.moment, Act.step]
    generalize (call.step options).runFrom state = run at hdoes
    cases hdoes with
    | refused | unwritable => cases call <;> rfl
    | exported | cleared | restored | stopped | verified | differs => rfl

/-- What is exported are the encodings of the rules in the store. -/
theorem encode_of_export? {store : Store} {snapshot : Snapshot}
    (h : (act.moment options state).export? = some (store, snapshot)) :
    Canonical.encode store.rules = .ok snapshot.baseline := by
  cases act with
  | others change => cases h
  | made call =>
    have hdoes := does_step options call state
    rw [Act.moment, Act.step] at h
    generalize (call.step options).runFrom state = run at hdoes h
    cases hdoes with
    | refused | unwritable => cases call <;> cases h
    | cleared | restored | stopped | verified | differs => cases h
    | exported hscript hencode =>
      obtain ⟨rfl, rfl⟩ := Prod.mk.inj (Option.some.inj h)
      exact hencode

/-- A round trip becomes verified exactly in a verification that finds what was exported. -/
theorem verified_moment_iff {snapshot : Snapshot} :
    ((act.moment options state).after.position = .after .verified snapshot ∧
        state.position ≠ (act.moment options state).after.position) ↔
      act = .made .verify ∧ state.position = .after .restored snapshot ∧
        Canonical.encode state.work.store.rules = .ok snapshot.baseline ∧
        options.ReadsBack snapshot.baseline state.work.transport
          (act.moment options state).after.work.transport := by
  cases act with
  | others change =>
    constructor
    · rintro ⟨-, hbefore⟩
      exact absurd rfl hbefore
    · rintro ⟨hcall, -⟩
      cases hcall
  | made call =>
    have hdoes := does_step options call state
    rw [Act.moment, Act.step]
    generalize (call.step options).runFrom state = run at hdoes
    constructor
    · rintro ⟨hafter, hbefore⟩
      -- only a verification that succeeds ends in this position
      cases hdoes with
      | refused | unwritable => exact absurd rfl hbefore
      | exported | cleared | restored | stopped | differs => cases hafter
      | verified hencode hread =>
        obtain ⟨-, rfl⟩ := Position.after.inj hafter
        exact ⟨rfl, rfl, hencode, hread⟩
    · rintro ⟨hcall, hbefore, hencode, hread⟩
      obtain rfl := Act.made.inj hcall
      -- no other outcome fits the position and the encoding
      cases hdoes with
      | refused hnot =>
        rw [hbefore] at hnot
        exact absurd (List.mem_singleton.mpr rfl) hnot
      | unwritable _ hflaw =>
        rw [hflaw] at hencode
        cases hencode
      | verified =>
        obtain ⟨-, rfl⟩ := Position.after.inj hbefore
        refine ⟨rfl, fun hsame => ?_⟩
        cases hsame
      | differs hdiffers =>
        obtain ⟨-, rfl⟩ := Position.after.inj hbefore
        exact absurd ⟨hencode, hread⟩ (hdiffers _)

/-- Only emptying the store and restoring it change the store. -/
theorem store_moment {call : Call} (h : call ≠ .clear ∧ call ≠ .restore) :
    ((Act.made call).moment options state).after.work.store = state.work.store := by
  have hdoes := does_step options call state
  rw [Act.moment, Act.step]
  generalize (call.step options).runFrom state = run at *
  cases hdoes with
  | refused | unwritable | exported | verified | differs => rfl
  | cleared => exact absurd rfl h.1
  | restored | stopped => exact absurd rfl h.2

end OneMoment

/-! ## All moments -/

/-- `Follows options start moments last` — the moments come one after the other, from `start` on,
    and end at `last`. -/
inductive Follows (options : Options σ ε) : State σ → List (Moment σ ε) → State σ → Prop
  | nil (state : State σ) : Follows options state [] state
  | cons (act : Act σ) {state last : State σ} {moments : List (Moment σ ε)}
      (h : Follows options (act.moment options state).after moments last) :
      Follows options state (act.moment options state :: moments) last

section Follows

variable {options : Options σ ε} {start last : State σ} {front back moments : List (Moment σ ε)}
  {moment : Moment σ ε}

/-- Moments that follow those before them may be put behind them. -/
theorem Follows.append {middle : State σ} (hfront : Follows options start front middle)
    (hback : Follows options middle back last) : Follows options start (front ++ back) last := by
  induction hfront with
  | nil state => exact hback
  | cons act _ ih => exact .cons act (ih hback)

/-- Moments in two parts meet in a state between them. -/
theorem Follows.exists_middle (h : Follows options start (front ++ back) last) :
    ∃ middle, Follows options start front middle ∧ Follows options middle back last := by
  induction front generalizing start with
  | nil => exact ⟨start, .nil start, h⟩
  | cons moment front ih =>
    cases h with
    | cons act h =>
      obtain ⟨middle, hfront, hback⟩ := ih h
      exact ⟨middle, .cons act hfront, hback⟩

/-- Each moment is that of its act. -/
theorem Follows.eq_moment (h : Follows options start moments last) :
    ∀ moment ∈ moments, moment = moment.act.moment options moment.before := by
  induction h with
  | nil state =>
    intro moment hmem
    exact absurd hmem List.not_mem_nil
  | cons act _ ih =>
    intro moment hmem
    rcases List.mem_cons.mp hmem with rfl | hmem
    · rw [act_moment, before_moment]
    · exact ih moment hmem

/-- Moments end where the last one ends. -/
theorem Follows.eq_after (h : Follows options start (front ++ [moment]) last) :
    last = moment.after := by
  obtain ⟨middle, -, hmoment⟩ := h.exists_middle
  cases hmoment with
  | cons act hnil =>
    cases hnil
    rfl

/-- The moments of some acts follow one another. -/
theorem follows_momentsOf (options : Options σ ε) (acts : List (Act σ)) (state : State σ) :
    ∃ last, Follows options state (momentsOf options acts state) last := by
  induction acts generalizing state with
  | nil => exact ⟨state, .nil state⟩
  | cons act acts ih =>
    rw [momentsOf]
    cases (act.moment options state).outcome with
    | error e => exact ⟨_, .cons act (.nil _)⟩
    | ok answer =>
      obtain ⟨last, hlast⟩ := ih (act.moment options state).after
      exact ⟨last, .cons act hlast⟩

/-- The moments of an event end where the event does. -/
theorem follows_event (options : Options σ ε) (event : Event σ) (state : State σ) :
    Follows options state (momentsOf options event.acts state)
      ((event.step options).runFrom state).2 := by
  obtain ⟨reached, hfollows⟩ := follows_momentsOf options event.acts state
  obtain ⟨earlier, last, hmoments, hrun⟩ := runFrom_event options event state
  rw [hmoments] at hfollows ⊢
  rw [hrun, ← hfollows.eq_after]
  exact hfollows

/-- So do the moments of all events, one event after another. -/
theorem follows_history (options : Options σ ε) (events : List (Event σ)) (state : State σ) :
    ∃ last, Follows options state (history options events state) last := by
  induction events generalizing state with
  | nil => exact ⟨state, .nil state⟩
  | cons event events ih =>
    obtain ⟨last, hlast⟩ := ih ((event.step options).runFrom state).2
    exact ⟨last, (follows_event options event state).append hlast⟩

/-- The first of the moments exports the latest only if no other does. -/
theorem latestExport?_cons (moment : Moment σ ε) (moments : List (Moment σ ε)) :
    latestExport? (moment :: moments) = (latestExport? moments).or moment.export? := by
  rw [latestExport?, latestExport?, List.filterMap_cons]
  cases moment.export? with
  | none => exact Option.or_none.symm
  | some found =>
    rw [List.getLast?_cons]
    cases (moments.filterMap Moment.export?).getLast? <;> rfl

/-- The snapshot is that of the latest export, or if there is none the one from before. -/
theorem Follows.snapshot?_eq (h : Follows options start moments last) :
    last.position.snapshot? =
      ((latestExport? moments).map Prod.snd).or start.position.snapshot? := by
  induction h with
  | nil state => rfl
  | @cons act state last moments _ ih =>
    rw [ih, snapshot?_moment, latestExport?_cons, ← Option.or_assoc]
    cases latestExport? moments <;> rfl

/-- The latest export is one of the moments. -/
theorem Follows.encode_of_latestExport? (h : Follows options start moments last) {store : Store}
    {snapshot : Snapshot} (hlatest : latestExport? moments = some (store, snapshot)) :
    Canonical.encode store.rules = .ok snapshot.baseline := by
  obtain ⟨moment, hmem, hexport⟩ := List.mem_filterMap.mp (List.mem_of_getLast? hlatest)
  rw [h.eq_moment moment hmem] at hexport
  exact encode_of_export? options moment.act moment.before hexport

end Follows

/-- **Round trips are safe.**  Whatever callers and others do, in any order, and whatever the
    transport answers:

    * each event, a whole run too, ends as the last of its moments does;
    * a call that the position does not allow is refused, and nothing changes;
    * a round trip becomes verified in exactly those verifications that find the octets that were
      exported as the encodings of the store, and on the transport if there is one;
    * there is a snapshot from the first export on, which is that of the latest export, and from it
      the store of that export is read, if its rules were made;
    * of the calls only those that empty and restore the store change it. -/
theorem history_safe (options : Options σ ε) (reportOf : ε → Report) (events : List (Event σ))
    (work : Replay.State σ) :
    (∀ (event : Event σ) (state : State σ), ∃ earlier last,
      momentsOf options event.acts state = earlier ++ [last] ∧
        (event.step options).runFrom state = (last.outcome, last.after)) ∧
    ∀ front moment back, history options events { work := work } = front ++ moment :: back →
      (∀ call, moment.act = .made call → ¬ call.Allowed moment.before.position →
        moment.after = moment.before ∧
        ∃ error, moment.outcome = .error error ∧
          error.report reportOf = Report.state moment.before.position.name call.name) ∧
      (∀ snapshot, (moment.after.position = .after .verified snapshot ∧
          moment.before.position ≠ moment.after.position) ↔
        moment.act = .made .verify ∧ moment.before.position = .after .restored snapshot ∧
        Canonical.encode moment.before.work.store.rules = .ok snapshot.baseline ∧
        options.ReadsBack snapshot.baseline moment.before.work.transport
          moment.after.work.transport) ∧
      (moment.after.position = .idle ↔ latestExport? (front ++ [moment]) = none) ∧
      (∀ store snapshot, latestExport? (front ++ [moment]) = some (store, snapshot) →
        moment.after.position.snapshot? = some snapshot ∧
        Canonical.encode store.rules = .ok snapshot.baseline ∧
        ((∀ rule ∈ store.rules, rule.Made) →
          Canonical.decodeStore snapshot.baseline = .ok store)) ∧
      ∀ call, moment.act = .made call → moment.after.work.store ≠ moment.before.work.store →
        call = .clear ∨ call = .restore := by
  refine ⟨runFrom_event options, ?_⟩
  intro front moment back hhistory
  obtain ⟨last, hfollows⟩ := follows_history options events { work := work }
  rw [hhistory, List.append_cons] at hfollows
  obtain ⟨reached, hsofar, -⟩ := hfollows.exists_middle
  obtain rfl := hsofar.eq_after
  -- each clause is about one moment, told by its act and by the state before it
  have hmoment : moment = moment.act.moment options moment.before :=
    hsofar.eq_moment moment (List.mem_append_right front List.mem_cons_self)
  -- the snapshot at hand is always the one of the latest export
  have hsnapshot : moment.after.position.snapshot? =
      (latestExport? (front ++ [moment])).map Prod.snd :=
    hsofar.snapshot?_eq.trans Option.or_none
  refine ⟨fun call hcall hnot => ?_, fun snapshot => ?_, ?_,
    fun store snapshot hlatest => ?_, fun call hcall hchanged => ?_⟩
  · rw [hcall, refused_moment options _ hnot] at hmoment
    rw [hmoment]
    exact ⟨rfl, _, rfl, rfl⟩
  · rw [hmoment]
    exact verified_moment_iff options _ _
  · rw [← Option.map_eq_none_iff, ← hsnapshot]
    cases moment.after.position with
    | idle => exact iff_of_true rfl rfl
    | after stage snapshot => exact ⟨nofun, nofun⟩
  · have hencode := hsofar.encode_of_latestExport? hlatest
    refine ⟨?_, hencode, fun hmade => ?_⟩
    · rw [hsnapshot, hlatest]
      rfl
    · have hvalid : ∀ rule ∈ store.rules, rule.Valid :=
        fun rule hmem => Rule.made_iff_valid.mp (hmade rule hmem)
      exact Canonical.decodeStore_of_encode hvalid hencode
  · by_contra hother
    rw [hcall] at hmoment
    rw [hmoment] at hchanged
    exact hchanged (store_moment options _ (not_or.mp hother))

/-- Where a round trip is verified there is a snapshot. -/
theorem eq_after_of_name_verified {position : Position} (h : position.name = "verified") :
    ∃ snapshot, position = .after .verified snapshot := by
  rcases position with _ | ⟨_ | _ | _ | _ | _, snapshot⟩ <;>
    first
      | exact ⟨snapshot, rfl⟩
      | simp [Position.name] at h

/-- The call that is made, if it is one. -/
def Act.call? : Act σ → Option Call
  | .made call => some call
  | .others _ => none

/-- An act with a call makes it. -/
theorem Act.eq_made_of_call? {act : Act σ} {call : Call} (h : act.call? = some call) :
    act = .made call := by
  cases act with
  | made made => rw [Option.some.inj h]
  | others change => cases h

/-- A card that takes everything, keeps nothing, and gives the same octets whenever it is read. -/
def steady (octets : Bytes) : Transport Unit Unit where
  select := fun label => pure ⟨label, [], []⟩
  send := fun _ _ => pure ()
  deleteAll := fun _ => pure ()
  readAll := fun _ => pure octets

/-- A run over a card that gives back what was exported is verified.  Emptying the store is refused
    then, and the store is still read from the snapshot. -/
theorem history_safe_of_verified_run :
    let octets : Bytes := [0xe2, 11, 0xe1, 4, 0xc0, 0, 0xc1, 0, 0xe3, 3, 0xd1, 1, 1]
    let rule : Rule := ⟨⟨.any, [], none⟩, { nfc := some .always }⟩
    let store : Store := .ofList [rule]
    let moments := history { transport := some (steady octets) } [.run, .one (.made .clear)]
      { work := ⟨store, (), []⟩ }
    ∃ front verifying refused, moments = front ++ [verifying, refused] ∧
      verifying.act = .made .verify ∧
      Canonical.encode verifying.before.work.store.rules = .ok octets ∧
      refused.after = refused.before ∧
      ∃ snapshot, refused.after.position.snapshot? = some snapshot ∧
        Canonical.decodeStore snapshot.baseline = .ok store := by
  -- a card that always answers with these octets takes the run to its end
  have hshown :
      let moments := history
        { transport := some (steady
          [0xe2, 11, 0xe1, 4, 0xc0, 0, 0xc1, 0, 0xe3, 3, 0xd1, 1, 1]) }
        [.run, .one (.made .clear)]
        { work := ⟨.ofList [⟨⟨.any, [], none⟩, { nfc := some .always }⟩], (), []⟩ }
      moments.map (fun moment => (moment.act.call?, moment.before.position.name,
          moment.after.position.name)) =
        [(some .exportStore, "idle", "exported"), (some .clear, "exported", "cleared"),
          (some .restore, "cleared", "restored"), (some .verify, "restored", "verified"),
          (some .clear, "verified", "verified")] ∧
      (latestExport? moments).map Prod.fst =
        some (.ofList [⟨⟨.any, [], none⟩, { nfc := some .always }⟩]) := by
    decide +kernel
  intro octets rule store moments
  obtain ⟨hmoments, hlatest⟩ := hshown
  obtain ⟨exporting, _, hmoments, -, hshown⟩ := List.map_eq_cons_iff.mp hmoments
  obtain ⟨clearing, _, rfl, -, hshown⟩ := List.map_eq_cons_iff.mp hshown
  obtain ⟨restoring, _, rfl, -, hshown⟩ := List.map_eq_cons_iff.mp hshown
  obtain ⟨verifying, _, rfl, hverifying, hshown⟩ := List.map_eq_cons_iff.mp hshown
  obtain ⟨refused, _, rfl, hrefused, hshown⟩ := List.map_eq_cons_iff.mp hshown
  obtain rfl := List.map_eq_nil_iff.mp hshown
  simp only [Prod.mk.injEq] at hverifying hrefused
  obtain ⟨-, hbefore, hafter⟩ := hverifying
  obtain ⟨hcall, hposition, -⟩ := hrefused
  have hsafe := (history_safe { transport := some (steady octets) } (fun _ => Report.plain "")
    [.run, .one (.made .clear)] ⟨store, (), []⟩).2
  obtain ⟨-, hverified, -⟩ := hsafe [exporting, clearing, restoring] verifying [refused] hmoments
  obtain ⟨hkept, -, -, hexported, -⟩ :=
    hsafe [exporting, clearing, restoring, verifying] refused [] hmoments
  obtain ⟨snapshot, hsnapshot⟩ := eq_after_of_name_verified hafter
  have hmoved : verifying.before.position ≠ verifying.after.position := by
    intro hsame
    rw [hsame, hafter] at hbefore
    exact absurd hbefore (by decide)
  obtain ⟨hact, -, hencode, selection, middle, -, hread⟩ :=
    (hverified snapshot).mp ⟨hsnapshot, hmoved⟩
  have hbaseline : octets = snapshot.baseline := Except.ok.inj (Prod.mk.inj hread).1
  refine ⟨[exporting, clearing, restoring], verifying, refused, hmoments, hact, ?_, ?_, ?_⟩
  · rw [hbaseline]
    exact hencode
  · have hnot : ¬ Call.clear.Allowed refused.before.position := by
      rw [Call.Allowed, hposition]
      decide
    exact (hkept .clear (Act.eq_made_of_call? hcall) hnot).1
  · obtain ⟨⟨exported, snapshot⟩, hexport, hstore⟩ := Option.map_eq_some_iff.mp hlatest
    have hmade : ∀ rule ∈ store.rules, rule.Made := by
      intro made hmem
      obtain rfl := List.mem_singleton.mp hmem
      exact .created (show Rule.create rule.asInput = .ok rule from rfl)
    rw [show exported = store from hstore] at hexport
    obtain ⟨hlast, -, hdecode⟩ := hexported _ _ (hmoments ▸ hexport)
    exact ⟨snapshot, hlast, hdecode hmade⟩

end AccessRules.RoundTrip
