import AccessRules.Proofs.Store.Log

/-!
# Changes made again

Making some changes to a store once more changes nothing (`after_after`), although every insertion
moves its rule to the end.  And if one of the changes starts afresh, what was there before plays no
part (`after_eq_of_resets`).

Both are read off the log.  Changes that start nowhere afresh are written behind what is there
(`logged_eq_append`), and from a log that goes on with the same rules twice no more is left than if
it had them once (`latest_append_self`): the first time each of them is inserted is not the last.
-/

namespace AccessRules.Store

variable {ε : Type}

/-! ## What is left of a longer log -/

/-- The rules of a log that are about none of the references of some rules. -/
def besides (log rules : List Rule) : List Rule :=
  log.filter fun rule => decide (rule.reference ∉ rules.map Rule.reference)

/-- What is left of a longer log: the rules in front that are not inserted again, and then what is
    left of the others. -/
theorem latest_append (log rules : List Rule) :
    latest (log ++ rules) = besides (latest log) rules ++ latest rules := by
  induction log with
  | nil => rfl
  | cons first log ih =>
    have hbehind : first.reference ∈ (log ++ rules).map Rule.reference ↔
        first.reference ∈ log.map Rule.reference ∨
          first.reference ∈ rules.map Rule.reference := by
      rw [List.map_append, List.mem_append]
    rw [List.cons_append, latest, latest, ih]
    -- the first rule is hidden by its own log, by the rules behind that, or not at all
    by_cases hlog : first.reference ∈ log.map Rule.reference
    · rw [if_pos hlog, if_pos (hbehind.mpr (.inl hlog))]
    · rw [if_neg hlog]
      by_cases hrules : first.reference ∈ rules.map Rule.reference
      · rw [if_pos (hbehind.mpr (.inr hrules)), besides, besides,
          List.filter_cons_of_neg (by simpa using hrules)]
      · have hnot : first.reference ∉ (log ++ rules).map Rule.reference := by
          intro hmem
          rcases hbehind.mp hmem with h | h
          · exact hlog h
          · exact hrules h
        rw [if_neg hnot, besides, besides, List.filter_cons_of_pos (by simpa using hrules),
          List.cons_append]

/-- Nothing is left besides what is inserted again. -/
theorem besides_latest_self (rules : List Rule) : besides (latest rules) rules = [] := by
  refine List.filter_eq_nil_iff.mpr fun rule hmem => ?_
  rw [decide_eq_true_eq, not_not, ← mem_map_reference_latest]
  exact List.mem_map_of_mem hmem

/-- Leaving rules out twice is leaving them out. -/
theorem besides_besides (log rules : List Rule) :
    besides (besides log rules) rules = besides log rules := by
  rw [besides, besides, List.filter_filter]
  simp only [Bool.and_self]

/-- Inserting the same rules twice leaves what inserting them once does. -/
theorem latest_append_self (log rules : List Rule) :
    latest (log ++ rules ++ rules) = latest (log ++ rules) := by
  have hsplit : besides (latest (log ++ rules)) rules =
      besides (besides (latest log) rules) rules ++ besides (latest rules) rules := by
    rw [latest_append, besides, List.filter_append]
    rfl
  calc latest (log ++ rules ++ rules)
      = besides (latest (log ++ rules)) rules ++ latest rules := latest_append _ _
    _ = besides (latest log) rules ++ latest rules := by
        rw [hsplit, besides_besides, besides_latest_self, List.append_nil]
    _ = latest (log ++ rules) := (latest_append log rules).symm

/-! ## Changes that start afresh -/

/-- `change.Resets` — what was in the store before is not there afterwards, unless it is inserted
    again. -/
def Change.Resets : Change ε → Prop
  | .insert _ => False
  | .deleteAll => True
  | .replaceAll source => ∃ rules, source.mapM id = .ok rules

/-- A change starts the log afresh or is written behind it. -/
theorem Change.record_cases (change : Change ε) :
    (change.Resets ∧ ∀ log other, change.record log = change.record other) ∨
      (¬change.Resets ∧ ∃ rules, ∀ log, change.record log = log ++ rules) := by
  cases change with
  | insert rule => exact .inr ⟨not_false, [rule], fun _ => rfl⟩
  | deleteAll => exact .inl ⟨trivial, fun _ _ => rfl⟩
  | replaceAll source =>
    cases hsource : source.mapM id with
    | ok rules =>
      refine .inl ⟨⟨rules, hsource⟩, fun log other => ?_⟩
      rw [Change.record, Change.record, hsource]
    | error error =>
      refine .inr ⟨?_, [], fun log => ?_⟩
      · rintro ⟨rules, hrules⟩
        rw [hsource] at hrules
        cases hrules
      · rw [Change.record, hsource, List.append_nil]

/-- Where one of the changes starts afresh, the log does not depend on what was there before. -/
theorem logged_eq_of_resets {changes : List (Change ε)}
    (h : ∃ change ∈ changes, change.Resets) (log other : List Rule) :
    logged log changes = logged other changes := by
  induction changes generalizing log other with
  | nil =>
    obtain ⟨_, hmem, -⟩ := h
    cases hmem
  | cons first changes ih =>
    show logged (first.record log) changes = logged (first.record other) changes
    rcases first.record_cases with ⟨-, hsame⟩ | ⟨hnot, -⟩
    · rw [hsame log other]
    · obtain ⟨change, hmem, hresets⟩ := h
      rcases List.mem_cons.mp hmem with rfl | hmem
      · exact absurd hresets hnot
      · exact ih ⟨change, hmem, hresets⟩ _ _

/-- Changes none of which starts afresh are written behind what is there. -/
theorem logged_eq_append {changes : List (Change ε)}
    (h : ¬∃ change ∈ changes, change.Resets) :
    ∃ rules, ∀ log, logged log changes = log ++ rules := by
  induction changes with
  | nil => exact ⟨[], fun log => (List.append_nil log).symm⟩
  | cons first changes ih =>
    obtain ⟨rules, hrules⟩ := ih fun ⟨change, hmem, hresets⟩ =>
      h ⟨change, List.mem_cons_of_mem _ hmem, hresets⟩
    rcases first.record_cases with ⟨hresets, -⟩ | ⟨-, inserted, hinserted⟩
    · exact absurd ⟨first, List.mem_cons_self, hresets⟩ h
    · refine ⟨inserted ++ rules, fun log => ?_⟩
      show logged (first.record log) changes = _
      rw [hrules, hinserted, List.append_assoc]

/-! ## Stores -/

/-- A store holds the latest of its own rules. -/
theorem latest_rules (store : Store) : latest store.rules = store.rules := by
  rw [← rules_ofList, ofList_rules]

/-- Where one of the changes starts afresh, what the store held before plays no part. -/
theorem after_eq_of_resets {changes : List (Change ε)} (h : ∃ change ∈ changes, change.Resets)
    (store other : Store) : after store changes = after other changes := by
  refine ext_rules ?_
  rw [rules_after store.latest_rules.symm, rules_after other.latest_rules.symm,
    logged_eq_of_resets h store.rules other.rules]

/-- Changes that are made again change nothing. -/
theorem after_after (store : Store) (changes : List (Change ε)) :
    after (after store changes) changes = after store changes := by
  by_cases h : ∃ change ∈ changes, change.Resets
  · exact after_eq_of_resets h _ _
  · obtain ⟨rules, hrules⟩ := logged_eq_append h
    have hlatest : ∀ other : Store, ∀ log, other.rules = latest log →
        (after other changes).rules = latest (log ++ rules) := by
      intro other log hlog
      rw [rules_after hlog, hrules]
    have honce := hlatest store store.rules store.latest_rules.symm
    refine ext_rules ?_
    rw [hlatest _ _ honce, latest_append_self, honce]

end AccessRules.Store
