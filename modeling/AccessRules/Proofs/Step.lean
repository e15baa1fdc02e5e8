import AccessRules.Outcome
import AccessRules.Step

/-!
# What steps leave behind

Ways to say what a step does to a state, from which that of a longer step follows part by part:

1. **Runs** — where the first part gives a value, the second one starts from the state that it left
   (`runFrom_bind_of_ok`).

2. **What is kept** — `Keeps view step` says that the step leaves a part of the state alone, whether
   it fails or not.  Parts that keep it make up steps that keep it (`Keeps.bind`).

3. **What is reached** — `Leads pre post step` says that the step leads from states with `pre` to
   states with `post`, and that `pre` still holds where it fails.  A step behind it may rely on
   `post` (`Leads.bind`).
-/

namespace AccessRules.Step

variable {σ τ ε φ α β : Type}

/-! ## Runs -/

/-- What stands behind a step that gives a value starts from where this one ends. -/
theorem runFrom_bind_of_ok {step : Step σ ε α} {next : α → Step σ ε β} {state after : σ} {a : α}
    (h : step.runFrom state = (.ok a, after)) :
    (step >>= next).runFrom state = (next a).runFrom after := by
  rw [runFrom_bind, h]

/-- A requirement that is met changes nothing. -/
theorem runFrom_require {condition : Prop} [Decidable condition] (h : condition) (error : ε)
    (state : σ) : (require condition error : Step σ ε Unit).runFrom state = (.ok (), state) := by
  rw [require, if_pos h]
  rfl

/-- A value from outside is passed on, whatever its failure would have been turned into. -/
theorem runFrom_lift_mapError {outcome : Except φ α} {a : α} (h : outcome = .ok a) (f : φ → ε)
    (state : σ) : (lift (outcome.mapError f) : Step σ ε α).runFrom state = (.ok a, state) := by
  rw [h]
  rfl

theorem runFrom_get (state : σ) : (get : Step σ ε σ).runFrom state = (.ok state, state) := rfl

/-- Two steps in a row give a value if the second one does so from where the first one ends. -/
theorem runFrom_bind_eq_ok_iff {step : Step σ ε α} {next : α → Step σ ε β} {state after : σ}
    {b : β} :
    (step >>= next).runFrom state = (.ok b, after) ↔
      ∃ a middle, step.runFrom state = (.ok a, middle) ∧
        (next a).runFrom middle = (.ok b, after) := by
  rw [runFrom_bind]
  -- the second step is run only if the first one gives a value
  cases hrun : step.runFrom state with
  | mk outcome middle =>
    cases outcome with
    | error e =>
      constructor
      · intro h
        cases h
      · rintro ⟨_, _, heq, -⟩
        cases heq
    | ok a =>
      constructor
      · intro h
        exact ⟨a, middle, rfl, h⟩
      · rintro ⟨_, _, heq, h⟩
        cases heq
        exact h

/-- A function of the value leaves the state to the step. -/
@[simp] theorem runFrom_map (f : α → β) (step : Step σ ε α) (state : σ) :
    (f <$> step).runFrom state = ((step.runFrom state).1.map f, (step.runFrom state).2) := by
  rw [map_eq_pure_bind, runFrom_bind]
  cases step.runFrom state with
  | mk outcome after => cases outcome <;> rfl

@[simp] theorem runFrom_mapError (f : ε → φ) (step : Step σ ε α) (state : σ) :
    (step.mapError f).runFrom state =
      ((step.runFrom state).1.mapError f, (step.runFrom state).2) := rfl

/-- A step in a part of the state leaves the rest as it is. -/
@[simp] theorem runFrom_within (part : τ → σ) (withPart : τ → σ → τ) (step : Step σ ε α)
    (whole : τ) :
    (step.within part withPart).runFrom whole =
      ((step.runFrom (part whole)).1, withPart whole (step.runFrom (part whole)).2) := rfl

/-- What is to be done on failure starts from where the step failed. -/
theorem runFrom_onFailure (step : Step σ ε α) (change : σ → σ) (state : σ) :
    (step.onFailure change).runFrom state =
      match step.runFrom state with
      | (.ok a, after) => (.ok a, after)
      | (.error e, after) => (.error e, change after) := rfl

/-! ## What is kept -/

/-- `Keeps view step` — the step leaves what `view` shows of a state as it was, whether it gives a
    value or fails. -/
def Keeps (view : σ → τ) (step : Step σ ε α) : Prop :=
  ∀ state, view (step.runFrom state).2 = view state

variable {view : σ → τ}

theorem keeps_pure (a : α) : Keeps view (pure a : Step σ ε α) := fun _ => rfl

theorem keeps_throw (e : ε) : Keeps view (throw e : Step σ ε α) := fun _ => rfl

theorem keeps_lift (outcome : Except ε α) : Keeps view (lift outcome : Step σ ε α) := fun _ => rfl

/-- A requirement keeps everything, met or not. -/
theorem keeps_require (condition : Prop) [Decidable condition] (error : ε) :
    Keeps view (require condition error : Step σ ε Unit) := by
  unfold require
  split
  · exact keeps_pure ()
  · exact keeps_throw error

theorem keeps_get : Keeps view (get : Step σ ε σ) := fun _ => rfl

/-- A change keeps what it says it keeps. -/
theorem keeps_modify {change : σ → σ} (h : ∀ state, view (change state) = view state) :
    Keeps view (modify change : Step σ ε PUnit) := h

/-- Two steps in a row keep what each of them keeps. -/
theorem Keeps.bind {step : Step σ ε α} {next : α → Step σ ε β} (hstep : Keeps view step)
    (hnext : ∀ a, Keeps view (next a)) : Keeps view (step >>= next) := by
  intro state
  have hfirst := hstep state
  rw [runFrom_bind]
  cases hrun : step.runFrom state with
  | mk outcome after =>
    rw [hrun] at hfirst
    cases outcome with
    | error e => exact hfirst
    | ok a => exact (hnext a after).trans hfirst

/-! ## What is reached -/

/-- `Ends pre post run` — a run that gives a value ends in a state with `post`, and one that fails
    in a state with `pre`. -/
def Ends (pre post : σ → Prop) : Except ε α × σ → Prop
  | (.ok _, after) => post after
  | (.error _, after) => pre after

/-- `Leads pre post step` — what the step does from a state with `pre` ends in one with `post`, or
    with `pre` if it fails. -/
def Leads (pre post : σ → Prop) (step : Step σ ε α) : Prop :=
  ∀ state, pre state → Ends pre post (step.runFrom state)

variable {pre middle post : σ → Prop}

theorem leads_pure (a : α) : Leads pre pre (pure a : Step σ ε α) := fun _ h => h

theorem leads_throw (e : ε) : Leads pre post (throw e : Step σ ε α) := fun _ h => h

/-- An outcome from outside leads nowhere. -/
theorem leads_lift (outcome : Except ε α) : Leads pre pre (lift outcome : Step σ ε α) := by
  intro state h
  cases outcome <;> exact h

/-- A requirement leads nowhere, met or not. -/
theorem leads_require (condition : Prop) [Decidable condition] (error : ε) :
    Leads pre pre (require condition error : Step σ ε Unit) := by
  unfold require
  split
  · exact leads_pure ()
  · exact leads_throw error

/-- Where a step ends if the states with `pre` are those with `post`. -/
theorem Leads.after {step : Step σ ε α} (h : Leads pre pre step) {state : σ} (hpre : pre state) :
    pre (step.runFrom state).2 := by
  have hstep := h state hpre
  cases hrun : step.runFrom state with
  | mk outcome after =>
    rw [hrun] at hstep
    cases outcome <;> exact hstep

/-- What is reached may be said less exactly. -/
theorem Leads.weaken {step : Step σ ε α} (h : Leads pre middle step)
    (hweak : ∀ state, middle state → post state) : Leads pre post step := by
  intro state hpre
  have hstep := h state hpre
  cases hrun : step.runFrom state with
  | mk outcome after =>
    rw [hrun] at hstep
    cases outcome with
    | error e => exact hstep
    | ok a => exact hweak after hstep

/-- How a failure is told does not matter for where a step leads. -/
theorem Leads.mapError {step : Step σ ε α} (h : Leads pre post step) (f : ε → φ) :
    Leads pre post (step.mapError f) := by
  intro state hpre
  have hstep := h state hpre
  rw [runFrom_mapError]
  cases hrun : step.runFrom state with
  | mk outcome after =>
    rw [hrun] at hstep
    cases outcome <;> exact hstep

/-- Two steps in a row: where the second one fails, what the first one has reached is enough for
    what held before. -/
theorem Leads.bind {step : Step σ ε α} {next : α → Step σ ε β} (hstep : Leads pre middle step)
    (hnext : ∀ a, Leads middle post (next a)) (hback : ∀ state, middle state → pre state) :
    Leads pre post (step >>= next) := by
  intro state hpre
  have hfirst := hstep state hpre
  rw [runFrom_bind]
  cases hrun : step.runFrom state with
  | mk outcome reached =>
    rw [hrun] at hfirst
    cases outcome with
    | error e => exact hfirst
    | ok a =>
      have hsecond := hnext a reached hfirst
      show Ends pre post ((next a).runFrom reached)
      cases hrest : (next a).runFrom reached with
      | mk outcome after =>
        rw [hrest] at hsecond
        -- a failure of the second step is one behind the first, so it has to lead back
        cases outcome with
        | error e => exact hback after hsecond
        | ok b => exact hsecond

/-- Two steps in a row where the first one reaches nothing new. -/
theorem Leads.seq {step : Step σ ε α} {next : α → Step σ ε β} (hstep : Leads pre pre step)
    (hnext : ∀ a, Leads pre post (next a)) : Leads pre post (step >>= next) :=
  hstep.bind hnext fun _ h => h

/-- A step keeps what it shows of a state if it leads from each such state to such states. -/
theorem keeps_of_leads {step : Step σ ε α}
    (h : ∀ shown, Leads (view · = shown) (view · = shown) step) : Keeps view step :=
  fun state => (h (view state)).after rfl

/-- A step that keeps what it shows of a state keeps whatever holds of it. -/
theorem Keeps.leads {step : Step σ ε α} (h : Keeps view step) (holds : τ → Prop) :
    Leads (fun state => holds (view state)) (fun state => holds (view state)) step := by
  intro state hpre
  have hstep : holds (view (step.runFrom state).2) := (h state).symm ▸ hpre
  cases hrun : step.runFrom state with
  | mk outcome after =>
    rw [hrun] at hstep
    cases outcome <;> exact hstep

end AccessRules.Step
