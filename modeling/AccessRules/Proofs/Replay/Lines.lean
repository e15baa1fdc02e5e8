import AccessRules.Proofs.Step
import AccessRules.Replay

/-!
# Lines of a replay

1. **Runs** — a line that says nothing changes nothing.  A line that says something is carried out,
   and the replay goes on behind it from what it left behind (`runFrom_line_of_ok`,
   `runFrom_lines_of_ok`).

2. **History** — `history transport scripts state` lists the states after every single line of
   scripts that are replayed one after the other, whether they succeed or fail.  What every line
   preserves holds in all of them (`forall_mem_history`).
-/

namespace AccessRules.Replay

variable {σ ε : Type} {transport : Option (Transport σ ε)} {progress : Progress}
  {state after : State σ} {text : String}

/-! ## Runs -/

/-- A line that says nothing changes nothing. -/
theorem runFrom_line_of_none (h : Operation.parse? text = .ok none) :
    (line transport progress text).runFrom state = (.ok progress, state) := by
  rw [line, h]
  rfl

/-- A line is carried out as the operation on it. -/
theorem runFrom_line_of_ok {operation : Operation} {target : Target}
    (hparse : Operation.parse? text = .ok (some operation))
    (hrun : (execute transport progress.target operation).runFrom state = (.ok target, after)) :
    (line transport progress text).runFrom state =
      (.ok ⟨progress.executed + 1, some target⟩, after) := by
  rw [line, hparse]
  show (execute transport progress.target operation >>= _).runFrom state = _
  rw [Step.runFrom_bind_of_ok hrun]
  rfl

/-- A line that is no operation fails and changes nothing. -/
theorem runFrom_line_of_flaw {flaw : Script.Flaw} (h : Operation.parse? text = .error flaw) :
    (line transport progress text).runFrom state = (.error (.line flaw), state) := by
  rw [line, h]
  rfl

/-- A line fails as the operation on it does. -/
theorem runFrom_line_of_error {operation : Operation} {reason : Reason ε}
    (hparse : Operation.parse? text = .ok (some operation))
    (hrun : (execute transport progress.target operation).runFrom state = (.error reason, after)) :
    (line transport progress text).runFrom state = (.error reason, after) := by
  rw [line, hparse]
  show (execute transport progress.target operation >>= _).runFrom state = _
  rw [Step.runFrom_bind, hrun]

/-- A line that fails ends the replay. -/
theorem runFrom_lines_of_error {reason : Reason ε} {number : Nat}
    {rest : List (Script.Numbered String)}
    (h : (line transport progress text).runFrom state = (.error reason, after)) :
    (lines transport progress (⟨number, text⟩ :: rest)).runFrom state =
      (.error ⟨number, reason⟩, after) := by
  rw [lines, Step.runFrom_bind, Step.runFrom_mapError, h]
  rfl

/-- Behind a line that was carried out the replay goes on with the next one. -/
theorem runFrom_lines_of_ok {next : Progress} {number : Nat}
    {rest : List (Script.Numbered String)}
    (h : (line transport progress text).runFrom state = (.ok next, after)) :
    (lines transport progress (⟨number, text⟩ :: rest)).runFrom state =
      (lines transport next rest).runFrom after := by
  rw [lines, Step.runFrom_bind, Step.runFrom_mapError, h]
  rfl

/-! ## History -/

/-- The states that lines leave behind, one after each line up to the first that fails. -/
def lineStates (transport : Option (Transport σ ε)) (progress : Progress) :
    List (Script.Numbered String) → State σ → List (State σ)
  | [], _ => []
  | ⟨_, text⟩ :: rest, state =>
    match (line transport progress text).runFrom state with
    | (.ok next, after) => after :: lineStates transport next rest after
    | (.error _, after) => [after]

/-- The states that scripts leave behind after every single line, when each script starts where the
    one before it ended. -/
def history (transport : Option (Transport σ ε)) : List String → State σ → List (State σ)
  | [], _ => []
  | script :: scripts, state =>
    lineStates transport {} (Script.lines script) state ++
      history transport scripts ((run transport script).runFrom state).2

/-- A replay ends in the last of its states. -/
theorem runFrom_lines_snd (transport : Option (Transport σ ε)) (progress : Progress)
    (rest : List (Script.Numbered String)) (state : State σ) :
    ((lines transport progress rest).runFrom state).2 =
      (lineStates transport progress rest state).getLastD state := by
  induction rest generalizing progress state with
  | nil => rfl
  | cons numbered rest ih =>
    obtain ⟨number, text⟩ := numbered
    rw [lines, lineStates, Step.runFrom_bind, Step.runFrom_mapError]
    cases hrun : (line transport progress text).runFrom state with
    | mk outcome after =>
      cases outcome with
      | error reason => rfl
      | ok next =>
        show ((lines transport next rest).runFrom after).2 = _
        rw [ih, List.getLastD_cons]

section Invariant

variable {holds : State σ → Prop} {fits : Progress → Prop}

/-- What every line preserves holds after all of them. -/
theorem forall_mem_lineStates
    (hline : ∀ progress text state, fits progress → holds state →
      holds ((line transport progress text).runFrom state).2 ∧
        ∀ next, ((line transport progress text).runFrom state).1 = .ok next → fits next)
    (rest : List (Script.Numbered String)) (hfits : fits progress) (hholds : holds state) :
    ∀ after ∈ lineStates transport progress rest state, holds after := by
  induction rest generalizing progress state with
  | nil => exact nofun
  | cons numbered rest ih =>
    obtain ⟨number, text⟩ := numbered
    have hstep := hline progress text state hfits hholds
    rw [lineStates]
    cases hrun : (line transport progress text).runFrom state with
    | mk outcome after =>
      rw [hrun] at hstep
      cases outcome with
      -- a line that fails is the last
      | error reason => exact List.forall_mem_singleton.mpr hstep.1
      | ok next => exact List.forall_mem_cons.mpr ⟨hstep.1, ih (hstep.2 next rfl) hstep.1⟩

/-- What every line preserves holds throughout the history of some scripts. -/
theorem forall_mem_history
    (hline : ∀ progress text state, fits progress → holds state →
      holds ((line transport progress text).runFrom state).2 ∧
        ∀ next, ((line transport progress text).runFrom state).1 = .ok next → fits next)
    (hfits : fits {}) (scripts : List String) (hholds : holds state) :
    ∀ after ∈ history transport scripts state, holds after := by
  induction scripts generalizing state with
  | nil => exact nofun
  | cons script scripts ih =>
    have hlines := forall_mem_lineStates hline (Script.lines script) hfits hholds
    -- a script ends in the last of its states, or where it started if it has no line
    have hend : holds ((run transport script).runFrom state).2 := by
      rw [run, runFrom_lines_snd, List.getLastD_eq_getLast?]
      cases hlast : (lineStates transport {} (Script.lines script) state).getLast? with
      | none => exact hholds
      | some last => exact hlines last (List.mem_of_getLast? hlast)
    intro after hmem
    rcases List.mem_append.mp hmem with hmem | hmem
    · exact hlines after hmem
    · exact ih hend after hmem

end Invariant

end AccessRules.Replay
