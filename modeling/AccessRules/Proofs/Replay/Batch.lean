import AccessRules.Proofs.Replay.Lines
import AccessRules.Proofs.Script.Reading

/-!
# Replaying what has been read before

A replay reads a line only when all lines before it have been carried out.  It comes to the same as
reading the whole script first (`run_eq_carryOut`):

1. **Operations** — `carryOut` carries operations out up to the first one that fails.  An operation
   that fails does so before it changes the store or gives anything out (`failsClean_execute`), so
   these are left as the operations before it made them (`carryOut_error_cases`).

2. **Lines** — by induction on the lines, a replay does what `carryOut` does with the operations
   that can be read, and then fails if there is a line that cannot (`runFrom_lines_eq`).

3. **Lines behind a failure** — the induction on the lines also shows that nothing behind the line
   that fails plays a part (`runFrom_lines_of_take_eq`).
-/

namespace AccessRules

/-- The label that an operation selects, if it is one that selects. -/
def Operation.selected? : Operation → Option String
  | .selectTarget label => some label
  | .deleteAll | .storeRule _ | .readAll => none

/-- The label that is selected last by some operations, if any of them selects. -/
def lastSelected? (operations : List (Script.Numbered Operation)) : Option String :=
  (operations.filterMap fun numbered => numbered.item.selected?).getLast?

/-- The label in front is the last if none follows. -/
theorem lastSelected?_cons (numbered : Script.Numbered Operation)
    (operations : List (Script.Numbered Operation)) :
    lastSelected? (numbered :: operations) =
      (lastSelected? operations).or numbered.item.selected? := by
  unfold lastSelected?
  rw [List.filterMap_cons]
  cases numbered.item.selected? with
  | none => exact Option.or_none.symm
  | some label =>
    rw [List.getLast?_cons]
    cases (operations.filterMap fun numbered => numbered.item.selected?).getLast? <;> rfl

namespace Replay

variable {σ ε α β : Type} {transport : Option (Transport σ ε)}

/-- Carries out operations one after the other, up to the first one that fails. -/
def carryOut (transport : Option (Transport σ ε)) (progress : Progress) :
    List (Script.Numbered Operation) → Step (State σ) (Script.Numbered (Reason ε)) Progress
  | [] => return progress
  | ⟨number, operation⟩ :: rest => do
    let target ← (execute transport progress.target operation).mapError
      fun reason => ⟨number, reason⟩
    carryOut transport ⟨progress.executed + 1, some target⟩ rest

/-! ## One operation -/

/-- What a replay has to show: the store and the messages. -/
def shown (state : State σ) : Store × List String := (state.store, state.output)

/-- `FailsClean step` — where the step fails, it leaves the store and the messages as they were, and
    not for what stands on the line. -/
def FailsClean (step : Step (State σ) (Reason ε) α) : Prop :=
  ∀ state reason after, step.runFrom state = (.error reason, after) →
    shown after = shown state ∧ ∀ flaw, reason ≠ .line flaw

/-- A step that keeps the store may come before one that changes it. -/
theorem FailsClean.bind {step : Step (State σ) (Reason ε) α}
    {next : α → Step (State σ) (Reason ε) β} (hstep : FailsClean step)
    (hkeeps : Step.Keeps shown step) (hnext : ∀ a, FailsClean (next a)) :
    FailsClean (step >>= next) := by
  intro state reason after h
  have hkept := hkeeps state
  rw [Step.runFrom_bind] at h
  cases hrun : step.runFrom state with
  | mk outcome middle =>
    rw [hrun] at h hkept
    cases outcome with
    | error e =>
      cases h
      exact hstep state _ _ hrun
    | ok a =>
      obtain ⟨hshown, hreason⟩ := hnext a middle reason after h
      exact ⟨hshown.trans hkept, hreason⟩

/-- A step that always succeeds has no failure to be clean in. -/
theorem failsClean_of_ok {step : Step (State σ) (Reason ε) α}
    (h : ∀ state, ∃ a after, step.runFrom state = (.ok a, after)) : FailsClean step := by
  intro state reason after hrun
  obtain ⟨a, middle, hok⟩ := h state
  rw [hok] at hrun
  cases hrun

/-- The store is changed by a step that does not fail. -/
theorem failsClean_changeStore (change : Store → Store) (target : Target) :
    FailsClean (changeStore change >>= fun _ => pure target : Step (State σ) (Reason ε) Target) :=
  failsClean_of_ok fun _ => ⟨target, _, rfl⟩

/-- What is done on the transport shows neither in the store nor in the messages. -/
theorem keeps_onTransport (step : Step σ ε α) : Step.Keeps shown (onTransport step) :=
  fun _ => rfl

/-- A failure of the transport is its own, and not one of a line. -/
theorem failsClean_onTransport (step : Step σ ε α) : FailsClean (onTransport step) := by
  intro state reason after h
  rw [onTransport, Step.runFrom_within, Step.runFrom_mapError] at h
  cases hrun : step.runFrom state.transport with
  | mk outcome link =>
    rw [hrun] at h
    cases outcome with
    | ok a => cases h
    | error e =>
      cases h
      exact ⟨rfl, nofun⟩

/-- An encoding that fails changes nothing. -/
theorem failsClean_encoded (outcome : Except Tlv.RangeFlaw Bytes) :
    FailsClean (encoded outcome : Step (State σ) (Reason ε) Bytes) := by
  intro state reason after h
  cases outcome with
  | ok octets => cases h
  | error flaw =>
    cases h
    exact ⟨rfl, nofun⟩

/-- Looking up the target changes nothing. -/
theorem keeps_needTarget (operation : Operation) (last : Option Target) :
    Step.Keeps shown (needTarget operation last : Step (State σ) (Reason ε) Target) := by
  cases last with
  | none => exact Step.keeps_throw _
  | some target => exact Step.keeps_pure target

/-- A missing target is reported before anything is changed. -/
theorem failsClean_needTarget (operation : Operation) (last : Option Target) :
    FailsClean (needTarget operation last : Step (State σ) (Reason ε) Target) := by
  intro state reason after h
  cases last with
  | none =>
    cases h
    exact ⟨rfl, nofun⟩
  | some target => cases h

section Mirrored

variable {there : Transport σ ε → Selection → Step (State σ) (Reason ε) α}
  {here : Step (State σ) (Reason ε) α}

/-- Mirroring shows nothing if neither way does. -/
theorem keeps_mirrored (target : Target)
    (hthere : ∀ transport selection, Step.Keeps shown (there transport selection))
    (hhere : Step.Keeps shown here) : Step.Keeps shown (mirrored transport target there here) := by
  unfold mirrored
  split
  · exact hthere _ _
  · exact hhere

/-- Mirroring fails clean if both ways do. -/
theorem failsClean_mirrored (target : Target)
    (hthere : ∀ transport selection, FailsClean (there transport selection))
    (hhere : FailsClean here) : FailsClean (mirrored transport target there here) := by
  unfold mirrored
  split
  · exact hthere _ _
  · exact hhere

end Mirrored

/-- **An operation that fails leaves the store as it was.** -/
theorem failsClean_execute (last : Option Target) (operation : Operation) :
    FailsClean (execute transport last operation) := by
  have hpure : FailsClean (pure () : Step (State σ) (Reason ε) Unit) :=
    failsClean_of_ok fun state => ⟨(), state, rfl⟩
  -- in every case the store or the messages are changed last, by a step that does not fail
  cases operation with
  | selectTarget label =>
    cases transport with
    | none => exact failsClean_of_ok fun state => ⟨_, state, rfl⟩
    | some transport =>
      refine (failsClean_onTransport _).bind (keeps_onTransport _) fun selection => ?_
      exact failsClean_of_ok fun state => ⟨_, state, rfl⟩
  | deleteAll =>
    refine (failsClean_needTarget _ last).bind (keeps_needTarget _ last) fun target => ?_
    refine FailsClean.bind ?_ ?_ fun _ => failsClean_changeStore _ target
    · exact failsClean_mirrored target (fun _ _ => failsClean_onTransport _) hpure
    · exact keeps_mirrored target (fun _ _ => keeps_onTransport _) (Step.keeps_pure ())
  | storeRule rule =>
    refine (failsClean_needTarget _ last).bind (keeps_needTarget _ last) fun target => ?_
    refine FailsClean.bind ?_ ?_ fun _ => failsClean_changeStore _ target
    · refine failsClean_mirrored target (fun _ _ => ?_) hpure
      exact (failsClean_encoded _).bind (Step.keeps_lift _) fun _ => failsClean_onTransport _
    · refine keeps_mirrored target (fun _ _ => ?_) (Step.keeps_pure ())
      exact Step.Keeps.bind (Step.keeps_lift _) fun _ => keeps_onTransport _
  | readAll =>
    refine (failsClean_needTarget _ last).bind (keeps_needTarget _ last) fun target => ?_
    have hstore : FailsClean (encodedStore : Step (State σ) (Reason ε) Bytes) :=
      (failsClean_of_ok fun state => ⟨state, state, rfl⟩).bind Step.keeps_get
        fun state => failsClean_encoded _
    refine FailsClean.bind ?_ ?_ fun octets => failsClean_of_ok fun state => ⟨target, _, rfl⟩
    · exact failsClean_mirrored target (fun _ _ => failsClean_onTransport _) hstore
    · refine keeps_mirrored target (fun _ _ => keeps_onTransport _) ?_
      exact Step.keeps_get.bind fun state => Step.keeps_lift _

/-- The target that is found is the last one. -/
theorem eq_of_needTarget {operation : Operation} {last : Option Target} {target : Target}
    {state middle : State σ}
    (h : (needTarget operation last : Step (State σ) (Reason ε) Target).runFrom state =
      (.ok target, middle)) : last = some target := by
  cases last with
  | none => cases h
  | some other =>
    cases h
    rfl

/-- Behind an operation the target has the label that it selects, or else that of the target before
    it. -/
theorem label_of_execute {last : Option Target} {operation : Operation} {state after : State σ}
    {target : Target}
    (h : (execute transport last operation).runFrom state = (.ok target, after)) :
    some target.label = operation.selected?.or (last.map Target.label) := by
  cases operation with
  | selectTarget label =>
    cases transport with
    | none =>
      cases h
      rfl
    | some transport =>
      obtain ⟨selection, middle, -, h⟩ := Step.runFrom_bind_eq_ok_iff.mp h
      cases h
      rfl
  -- all others go through the lookup of the target and give it back
  | deleteAll | storeRule rule | readAll =>
    obtain ⟨other, middle, hneed, h⟩ := Step.runFrom_bind_eq_ok_iff.mp h
    obtain ⟨_, _, -, h⟩ := Step.runFrom_bind_eq_ok_iff.mp h
    obtain ⟨_, _, -, h⟩ := Step.runFrom_bind_eq_ok_iff.mp h
    cases h
    rw [eq_of_needTarget hneed]
    rfl

/-! ## Operations in a row -/

section Cons

variable {progress : Progress} {number : Nat} {operation : Operation}
  {rest : List (Script.Numbered Operation)} {state after : State σ}

/-- Behind an operation that succeeds the others follow, from the target it leaves. -/
theorem runFrom_carryOut_cons_of_ok {target : Target}
    (h : (execute transport progress.target operation).runFrom state = (.ok target, after)) :
    (carryOut transport progress (⟨number, operation⟩ :: rest)).runFrom state =
      (carryOut transport ⟨progress.executed + 1, some target⟩ rest).runFrom after := by
  rw [carryOut, Step.runFrom_bind, Step.runFrom_mapError, h]
  rfl

/-- An operation that fails ends it with the number of its line. -/
theorem runFrom_carryOut_cons_of_error {reason : Reason ε}
    (h : (execute transport progress.target operation).runFrom state = (.error reason, after)) :
    (carryOut transport progress (⟨number, operation⟩ :: rest)).runFrom state =
      (.error ⟨number, reason⟩, after) := by
  rw [carryOut, Step.runFrom_bind, Step.runFrom_mapError, h]
  rfl

end Cons

/-- What is carried out counts, and the last label that is selected stays. -/
theorem carryOut_ok_cases {progress next : Progress}
    {operations : List (Script.Numbered Operation)} {state after : State σ}
    (h : (carryOut transport progress operations).runFrom state = (.ok next, after)) :
    next.executed = progress.executed + operations.length ∧
      next.label? = (lastSelected? operations).or progress.label? := by
  induction operations generalizing progress state with
  | nil =>
    cases h
    exact ⟨rfl, rfl⟩
  | cons numbered operations ih =>
    obtain ⟨number, operation⟩ := numbered
    cases hrun : (execute transport progress.target operation).runFrom state with
    | mk outcome middle =>
      cases outcome with
      | error reason =>
        rw [runFrom_carryOut_cons_of_error hrun] at h
        cases h
      | ok target =>
        rw [runFrom_carryOut_cons_of_ok hrun] at h
        obtain ⟨hexecuted, hlabel⟩ := ih h
        have htarget := label_of_execute hrun
        -- the label of the rest, or else the one this operation leaves
        have hfound : next.label? = (lastSelected? operations).or (some target.label) := hlabel
        refine ⟨?_, ?_⟩
        · rw [hexecuted, List.length_cons, Nat.add_assoc, Nat.add_comm 1]
        · rw [hfound, htarget, lastSelected?_cons, Option.or_assoc]
          rfl

/-- Where carrying out fails, the operations in front of the one that fails have been carried
    out. -/
theorem carryOut_error_cases {progress : Progress}
    {operations : List (Script.Numbered Operation)} {state after : State σ} {number : Nat}
    {reason : Reason ε}
    (h : (carryOut transport progress operations).runFrom state =
      (.error ⟨number, reason⟩, after)) :
    ∃ done operation rest next middle, operations = done ++ ⟨number, operation⟩ :: rest ∧
      (carryOut transport progress done).runFrom state = (.ok next, middle) ∧
      (execute transport next.target operation).runFrom middle = (.error reason, after) := by
  induction operations generalizing progress state with
  | nil => cases h
  | cons numbered operations ih =>
    obtain ⟨first, operation⟩ := numbered
    cases hrun : (execute transport progress.target operation).runFrom state with
    | mk outcome middle =>
      cases outcome with
      | error other =>
        rw [runFrom_carryOut_cons_of_error hrun] at h
        cases h
        -- it fails here, so nothing is done before it
        exact ⟨[], operation, operations, progress, state, rfl, rfl, hrun⟩
      | ok target =>
        rw [runFrom_carryOut_cons_of_ok hrun] at h
        obtain ⟨done, failing, rest, next, last, rfl, hdone, hfails⟩ := ih h
        refine ⟨⟨first, operation⟩ :: done, failing, rest, next, last, rfl, ?_, hfails⟩
        rw [runFrom_carryOut_cons_of_ok hrun]
        exact hdone

/-! ## Lines -/

/-- The failure of a line that cannot be read. -/
def unreadable (flaw : Script.Numbered Script.Flaw) : Script.Numbered (Reason ε) :=
  ⟨flaw.line, .line flaw.item⟩

/-- What a replay ends in if what could be read has been carried out: a failure if there is a line
    that cannot be read. -/
def finish (parsed : Except (Script.Numbered Script.Flaw) (List (Script.Numbered Operation))) :
    Except (Script.Numbered (Reason ε)) Progress × State σ →
      Except (Script.Numbered (Reason ε)) Progress × State σ
  | (.ok progress, after) => ((parsed.mapError unreadable).map fun _ => progress, after)
  | (.error error, after) => (.error error, after)

/-- A replay carries out the operations that can be read, and then fails if a line cannot. -/
theorem runFrom_lines_eq (ls : List (Script.Numbered String)) (progress : Progress)
    (state : State σ) :
    (lines transport progress ls).runFrom state =
      finish (Script.parseLines ls)
        ((carryOut transport progress (Script.readable ls)).runFrom state) := by
  induction ls generalizing progress state with
  | nil => rfl
  | cons numbered ls ih =>
    obtain ⟨number, text⟩ := numbered
    cases hparse : Operation.parse? text with
    | error flaw =>
      -- neither side carries out anything from a line that cannot be read
      rw [runFrom_lines_of_error (runFrom_line_of_flaw hparse),
        Script.parseLines_cons_of_error hparse, Script.readable_cons_of_error hparse]
      rfl
    | ok found =>
      cases found with
      | none =>
        rw [runFrom_lines_of_ok (runFrom_line_of_none hparse),
          Script.parseLines_cons_of_none hparse, Script.readable_cons_of_none hparse]
        exact ih progress state
      | some operation =>
        rw [Script.parseLines_cons_of_some hparse, Script.readable_cons_of_some hparse]
        cases hrun : (execute transport progress.target operation).runFrom state with
        | mk outcome after =>
          cases outcome with
          | error reason =>
            rw [runFrom_lines_of_error (runFrom_line_of_error hparse hrun),
              runFrom_carryOut_cons_of_error hrun]
            rfl
          | ok target =>
            rw [runFrom_lines_of_ok (runFrom_line_of_ok hparse hrun),
              runFrom_carryOut_cons_of_ok hrun, ih]
            -- the operation in front does not decide whether a line behind it can be read
            cases (carryOut transport _ (Script.readable ls)).runFrom after with
            | mk outcome last =>
              cases Script.parseLines ls <;> cases outcome <;> rfl

/-- A script that is read is replayed as its operations are carried out. -/
theorem runFrom_run_of_parse {script : String} {operations : List (Script.Numbered Operation)}
    (h : Script.parse script = .ok operations) (state : State σ) :
    (run transport script).runFrom state = (carryOut transport {} operations).runFrom state := by
  rw [run, runFrom_lines_eq, Script.readable_of_parseLines h, show Script.parseLines _ = _ from h]
  cases (carryOut transport {} operations).runFrom state with
  | mk outcome after => cases outcome <;> rfl

/-- The lines up to the one that fails decide how a replay fails. -/
theorem runFrom_lines_of_take_eq {texts : List String} {start number : Nat} {progress : Progress}
    {reason : Reason ε} {state after : State σ}
    (h : (lines transport progress (Script.numberFrom start texts)).runFrom state =
      (.error ⟨number, reason⟩, after)) :
    start ≤ number ∧ ∀ others : List String,
      others.take (number + 1 - start) = texts.take (number + 1 - start) →
        (lines transport progress (Script.numberFrom start others)).runFrom state =
          (.error ⟨number, reason⟩, after) := by
  induction texts generalizing start progress state with
  | nil => cases h
  | cons text texts ih =>
    rw [Script.numberFrom] at h
    cases hline : (line transport progress text).runFrom state with
    | mk outcome middle =>
      cases outcome with
      | error other =>
        rw [runFrom_lines_of_error hline] at h
        cases h
        -- the failing line is the last one that the two share
        refine ⟨Nat.le_refl _, fun others htake => ?_⟩
        rw [Nat.add_sub_cancel_left, List.take_succ_cons, List.take_zero] at htake
        cases others with
        | nil => cases htake
        | cons first others =>
          obtain rfl := (List.cons.inj htake).1
          exact runFrom_lines_of_error hline
      | ok next =>
        rw [runFrom_lines_of_ok hline] at h
        obtain ⟨hle, hrest⟩ := ih h
        refine ⟨by omega, fun others htake => ?_⟩
        -- one line less is compared from here
        have hcount : number + 1 - start = number + 1 - (start + 1) + 1 := by omega
        rw [hcount, List.take_succ_cons] at htake
        cases others with
        | nil => cases htake
        | cons first others =>
          rw [List.take_succ_cons] at htake
          obtain ⟨rfl, htail⟩ := List.cons.inj htake
          rw [Script.numberFrom, runFrom_lines_of_ok hline]
          exact hrest others htail

/-! ## The whole script -/

/-- Where carrying out the operations of a script fails, the failing operation stands on the line
    with that number, and it has left the store and the messages as the operations before it made
    them. -/
theorem carryOut_readable_error_cases {script : String} {state after : State σ} {number : Nat}
    {reason : Reason ε}
    (h : (carryOut transport {} (Script.readable (Script.lines script))).runFrom state =
      (.error ⟨number, reason⟩, after)) :
    ∃ done operation rest text progress before,
      Script.readable (Script.lines script) = done ++ ⟨number, operation⟩ :: rest ∧
      1 ≤ number ∧ (Text.lines script)[number - 1]? = some text ∧
      Operation.parse? text = .ok (some operation) ∧
      (carryOut transport {} done).runFrom state = (.ok progress, before) ∧
      (execute transport progress.target operation).runFrom before = (.error reason, after) ∧
      after.store = before.store ∧ after.output = before.output ∧
      ∀ flaw, reason ≠ .line flaw := by
  obtain ⟨done, operation, rest, progress, before, hsplit, hdone, hfails⟩ :=
    carryOut_error_cases h
  have hmem : ⟨number, operation⟩ ∈ Script.readable (Script.lines script) := by
    rw [hsplit]
    exact List.mem_append_right _ List.mem_cons_self
  obtain ⟨text, hline, hparse⟩ := Script.mem_readable hmem
  obtain ⟨hpos, htext⟩ := Script.mem_lines_iff.mp hline
  obtain ⟨hshown, hreason⟩ :=
    failsClean_execute progress.target operation before reason after hfails
  obtain ⟨hstore, houtput⟩ := Prod.mk.inj hshown
  exact ⟨done, operation, rest, text, progress, before, hsplit, hpos, htext, hparse, hdone, hfails,
    hstore, houtput, hreason⟩

/-- **Replaying a script line by line comes to the same as reading it first.**  The operations that
    can be read are all of the script, or those in front of the line whose flaw is reported.  The
    replay ends as carrying them out in order does, and with the flaw of that line if they all are
    carried out; otherwise it ends with the line and the reason of the first operation that fails,
    which leaves the store as it was.  What stands behind the line that fails plays no part.  If
    nothing fails, every operation counts and the last label that is selected stays. -/
theorem run_eq_carryOut (transport : Option (Transport σ ε)) (script : String)
    (state : State σ) :
    let operations := Script.readable (Script.lines script)
    let outcome := (carryOut transport {} operations).runFrom state
    (run transport script).runFrom state = finish (Script.parse script) outcome ∧
    (match Script.parse script with
      | .ok all => operations = all
      | .error ⟨number, flaw⟩ =>
        1 ≤ number ∧ (∃ text, (Text.lines script)[number - 1]? = some text ∧
            Operation.parse? text = .error flaw) ∧
          Script.parseLines ((Script.lines script).take (number - 1)) = .ok operations) ∧
    (match outcome with
      | (.ok progress, _) =>
        progress.executed = operations.length ∧ progress.label? = lastSelected? operations
      | (.error ⟨number, reason⟩, after) =>
        ∃ done operation rest text progress before,
          operations = done ++ ⟨number, operation⟩ :: rest ∧
          1 ≤ number ∧ (Text.lines script)[number - 1]? = some text ∧
          Operation.parse? text = .ok (some operation) ∧
          (carryOut transport {} done).runFrom state = (.ok progress, before) ∧
          (execute transport progress.target operation).runFrom before = (.error reason, after) ∧
          after.store = before.store ∧ after.output = before.output ∧
          ∀ flaw, reason ≠ .line flaw) ∧
    ∀ error after, (run transport script).runFrom state = (.error error, after) →
      (∀ other, (Text.lines other).take error.line = (Text.lines script).take error.line →
        (run transport other).runFrom state = (.error error, after)) ∧
      ∀ reportOf : ε → Report,
        let cause := error.item.report reportOf error.line
        report reportOf error = (Report.script error.line cause.message).causedBy cause := by
  intro operations outcome
  refine ⟨runFrom_lines_eq _ _ _, ?_, ?_, ?_⟩
  · cases hparse : Script.parse script with
    | ok all => exact Script.readable_of_parseLines hparse
    | error error => exact Script.parse_error_cases hparse
  · cases houtcome : outcome with
    | mk result after =>
      cases result with
      | ok progress =>
        obtain ⟨hexecuted, hlabel⟩ := carryOut_ok_cases houtcome
        rw [Nat.zero_add] at hexecuted
        exact ⟨hexecuted, hlabel.trans Option.or_none⟩
      | error error => exact carryOut_readable_error_cases houtcome
  · intro error after hrun
    refine ⟨fun other htake => ?_, fun reportOf => rfl⟩
    exact (runFrom_lines_of_take_eq hrun).2 (Text.lines other) htake

/-- A transport that counts what it is asked for and fails to delete: the replay ends on the third
    line, whatever stands behind it, and the rule that the store holds stays. -/
theorem run_eq_carryOut_of_failing_transport :
    let rule : Rule := ⟨⟨.any, [], none⟩, { nfc := some .always }⟩
    let transport : Transport Nat String :=
      { select := fun label => Step.of fun count => (.ok ⟨label, [], []⟩, count + 1)
        send := fun _ _ => Step.of fun count => (.ok (), count + 1)
        deleteAll := fun _ => Step.of fun count => (.error "removed", count + 1)
        readAll := fun _ => Step.of fun count => (.ok [], count + 1) }
    let start : State Nat := { store := ⟨[rule], by decide⟩, transport := 0 }
    (run (some transport) "select-target A\n\ndelete-all\nstop").runFrom start =
        (.error ⟨3, .transport "removed"⟩, { start with transport := 2 }) ∧
      (run (some transport) "select-target A\n\ndelete-all\nread-all\n").runFrom start =
        (.error ⟨3, .transport "removed"⟩, { start with transport := 2 }) := by
  intro rule transport start
  have hlines : Script.lines "select-target A\n\ndelete-all\nstop" =
      [⟨1, "select-target A"⟩, ⟨2, ""⟩, ⟨3, "delete-all"⟩, ⟨4, "stop"⟩] := by decide +kernel
  have hselect : Operation.parse? "select-target A" = .ok (some (.selectTarget "A")) := by
    have hprint : (Operation.selectTarget "A").print = "select-target A" := by decide +kernel
    rw [← hprint]
    exact Operation.parse?_print (Text.isWord_of_all (by decide) (by decide))
  have hdelete : Operation.parse? "delete-all" = .ok (some .deleteAll) :=
    @Operation.parse?_print .deleteAll trivial
  have hfirst : (execute (some transport) none (.selectTarget "A")).runFrom start =
      (.ok ⟨"A", some ⟨"A", [], []⟩⟩, { start with transport := 1 }) := rfl
  have hsecond : (execute (some transport) (some ⟨"A", some ⟨"A", [], []⟩⟩) .deleteAll).runFrom
      { start with transport := 1 } =
        (.error (.transport "removed"), { start with transport := 2 }) := rfl
  have hrun : (run (some transport) "select-target A\n\ndelete-all\nstop").runFrom start =
      (.error ⟨3, .transport "removed"⟩, { start with transport := 2 }) := by
    rw [run, hlines, runFrom_lines_of_ok (runFrom_line_of_ok hselect hfirst),
      runFrom_lines_of_ok (runFrom_line_of_none Operation.parse?_empty)]
    exact runFrom_lines_of_error (runFrom_line_of_error hdelete hsecond)
  obtain ⟨-, -, -, hfails⟩ :=
    run_eq_carryOut (some transport) "select-target A\n\ndelete-all\nstop" start
  exact ⟨hrun, (hfails _ _ hrun).1 _ (by decide +kernel)⟩

end Replay

end AccessRules
