/-!
# Steps of a machine

A card, an applet session, a script replay and a round trip are machines whose steps may fail
half way. What a failing step has already done stays done, so a step gives back its outcome and
the state it left behind in either case.
-/

namespace AccessRules

/-- A step of a machine with states `σ` that gives an `α` or fails with an `ε`. -/
abbrev Step (σ ε : Type) := ExceptT ε (StateM σ)

namespace Step

variable {σ τ ε φ α : Type}

/-- The step that a function from states describes. -/
def of (f : σ → Except ε α × σ) : Step σ ε α := ExceptT.mk f

/-- The outcome of a step and the state it leaves behind. -/
def runFrom (step : Step σ ε α) (state : σ) : Except ε α × σ := step.run.run state

/-- A step that touches no state. -/
def lift (outcome : Except ε α) : Step σ ε α := of fun state => (outcome, state)

/-- Goes on if the condition holds and fails otherwise. -/
def require (condition : Prop) [Decidable condition] (error : ε) : Step σ ε Unit :=
  if condition then pure () else throw error

/-- A step with its failures renamed. -/
def mapError (f : ε → φ) (step : Step σ ε α) : Step σ φ α :=
  of fun state => let (outcome, state) := step.runFrom state; (outcome.mapError f, state)

/-- A step of one part of a larger machine. -/
def within (part : τ → σ) (withPart : τ → σ → τ) (step : Step σ ε α) : Step τ ε α :=
  of fun whole => let (outcome, state) := step.runFrom (part whole); (outcome, withPart whole state)

/-- A step that changes the state once more if it fails. -/
def onFailure (step : Step σ ε α) (change : σ → σ) : Step σ ε α :=
  of fun state =>
    match step.runFrom state with
    | (.ok a, state) => (.ok a, state)
    | (.error e, state) => (.error e, change state)

/-! ## What each step does to a state -/

variable (state : σ)

@[simp] theorem runFrom_of (f : σ → Except ε α × σ) : (of f).runFrom state = f state := rfl

@[simp] theorem runFrom_pure (a : α) :
    (pure a : Step σ ε α).runFrom state = (.ok a, state) := rfl

@[simp] theorem runFrom_throw (e : ε) :
    (throw e : Step σ ε α).runFrom state = (.error e, state) := rfl

@[simp] theorem runFrom_lift (outcome : Except ε α) :
    (lift outcome : Step σ ε α).runFrom state = (outcome, state) := rfl

/-- The second step starts where the first one ends, if that one does not fail. -/
theorem runFrom_bind {β : Type} (step : Step σ ε α) (next : α → Step σ ε β) :
    (step >>= next).runFrom state =
      match step.runFrom state with
      | (.ok a, state) => (next a).runFrom state
      | (.error e, state) => (.error e, state) := by
  simp only [runFrom, ExceptT.run_bind, StateT.run_bind]
  generalize StateT.run (ExceptT.run step) state = found
  obtain ⟨outcome | outcome, after⟩ := found <;> rfl

end Step

end AccessRules
