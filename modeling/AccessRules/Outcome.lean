/-!
# Outcomes

Checking, encoding and decoding give a value or the cause of their failure. `bind_eq_ok_iff`,
`map_eq_ok_iff` and `mapError_eq_ok_iff` say what it takes for two of them in a row, or for one with
its value changed or its causes renamed, to give a value; `bind_eq_error_iff` and its like say what
it takes for them to fail.
-/

namespace AccessRules

variable {ε φ α β : Type}

/-- Goes on if the condition holds and fails otherwise. -/
def require (condition : Prop) [Decidable condition] (error : ε) : Except ε Unit :=
  if condition then .ok () else .error error

/-- What is required holds if nothing is reported. -/
theorem require_eq_ok_iff {condition : Prop} [Decidable condition] {error : ε} {u : Unit} :
    require condition error = .ok u ↔ condition := by
  unfold require
  split <;> simp [*]

/-- The error that is reported is the one that was given. -/
theorem require_eq_error_iff {condition : Prop} [Decidable condition] {error e : ε} :
    require condition error = .error e ↔ ¬condition ∧ error = e := by
  unfold require
  split <;> simp [*]

/-- Two parts succeed if the first does and the second does with its result. -/
theorem bind_eq_ok_iff {outcome : Except ε α} {next : α → Except ε β} {b : β} :
    outcome >>= next = .ok b ↔ ∃ a, outcome = .ok a ∧ next a = .ok b := by
  cases outcome with
  | error e => exact ⟨nofun, nofun⟩
  | ok a => exact ⟨fun h => ⟨a, rfl, h⟩, fun ⟨_, rfl, h⟩ => h⟩

/-- Two parts fail if the first does, or the second does behind it. -/
theorem bind_eq_error_iff {outcome : Except ε α} {next : α → Except ε β} {e : ε} :
    outcome >>= next = .error e ↔
      outcome = .error e ∨ ∃ a, outcome = .ok a ∧ next a = .error e := by
  cases outcome with
  | error e' =>
    refine ⟨fun h => Or.inl (congrArg Except.error (Except.error.inj h)), ?_⟩
    rintro (h | ⟨_, h, -⟩)
    · exact congrArg Except.error (Except.error.inj h)
    · cases h
  | ok a =>
    refine ⟨fun h => Or.inr ⟨a, rfl, h⟩, ?_⟩
    rintro (h | ⟨_, h, hnext⟩)
    · cases h
    · obtain rfl := Except.ok.inj h
      exact hnext

/-- A result is that of a function if the outcome has an argument for it. -/
theorem map_eq_ok_iff {outcome : Except ε α} {f : α → β} {b : β} :
    outcome.map f = .ok b ↔ ∃ a, outcome = .ok a ∧ f a = b := by
  cases outcome with
  | error e => exact ⟨nofun, nofun⟩
  | ok a =>
    refine ⟨fun h => ⟨a, rfl, Except.ok.inj h⟩, ?_⟩
    rintro ⟨_, h, rfl⟩
    exact congrArg (Except.map f) h

theorem map_eq_error_iff {outcome : Except ε α} {f : α → β} {e : ε} :
    outcome.map f = .error e ↔ outcome = .error e := by
  cases outcome with
  | error e' =>
    have same : (Except.error e' : Except ε α).map f = .error e' := rfl
    rw [same, Except.error.injEq, Except.error.injEq]
  | ok a => exact ⟨nofun, nofun⟩

theorem mapError_eq_ok_iff {outcome : Except ε α} {f : ε → φ} {a : α} :
    outcome.mapError f = .ok a ↔ outcome = .ok a := by
  cases outcome with
  | error e => exact ⟨nofun, nofun⟩
  | ok b =>
    have same : (Except.ok b : Except ε α).mapError f = .ok b := rfl
    rw [same, Except.ok.injEq, Except.ok.injEq]

/-- An error is that of a function if the outcome has an argument for it. -/
theorem mapError_eq_error_iff {outcome : Except ε α} {f : ε → φ} {e : φ} :
    outcome.mapError f = .error e ↔ ∃ e', outcome = .error e' ∧ f e' = e := by
  cases outcome with
  | error e' =>
    refine ⟨fun h => ⟨e', rfl, Except.error.inj h⟩, ?_⟩
    rintro ⟨_, h, rfl⟩
    exact congrArg (Except.mapError f) h
  | ok a => exact ⟨nofun, nofun⟩

end AccessRules
