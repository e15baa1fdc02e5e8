import AccessRules.Proofs.Store.Lookup
import AccessRules.Proofs.Store.Order
import Mathlib.Data.List.Dedup
import Mathlib.Data.List.Induction

/-!
# A store is the log of its insertions

Whatever is done to a store, it holds what is left of a log if of the rules with one reference only
the last counts (`rules_after_eq_latest`):

1. **The log** — `Change.record` writes down what a change inserts, and starts afresh where the
   store is emptied or its rules are exchanged.  A source that fails is not written down.

2. **What is left** — `latest log` are the rules behind which no other one with the same reference
   was inserted, in the order of the log.  Taking a rule out and putting it at the end of the store
   is what one more insertion does to it (`latest_concat`), so a store of some rules holds the
   latest of them (`rules_ofList`).

3. **All changes** — each change keeps store and log in step (`rules_apply`), and so do all of them,
   by induction on the changes (`rules_after`).
-/

namespace AccessRules.Store

variable {ε : Type}

/-! ## The log -/

/-- What is done to a store. -/
inductive Change (ε : Type)
  | insert (rule : Rule)
  | deleteAll
  /-- The rules are exchanged for those of a source, which may fail before it comes to an end. -/
  | replaceAll (source : List (Except ε Rule))

/-- The store after a change, whether that succeeded or failed. -/
def Change.apply : Change ε → Store → Store
  | .insert rule, store => (store.put rule).2
  | .deleteAll, _ => Store.empty
  | .replaceAll source, store => (store.replaceAll source).2

/-- The store after some changes. -/
def after (store : Store) (changes : List (Change ε)) : Store :=
  changes.foldl (fun store change => change.apply store) store

/-- The log after a change: the rules inserted since the store was last emptied or its rules were
    exchanged. -/
def Change.record : Change ε → List Rule → List Rule
  | .insert rule, log => log ++ [rule]
  | .deleteAll, _ => []
  | .replaceAll source, log =>
    match source.mapM id with
    | .ok rules => rules
    | .error _ => log

/-- The log after some changes. -/
def logged (log : List Rule) (changes : List (Change ε)) : List Rule :=
  changes.foldl (fun log change => change.record log) log

/-! ## What is left of a log -/

/-- The rules of a log behind which there is no other one with the same reference. -/
def latest : List Rule → List Rule
  | [] => []
  | rule :: log =>
    if rule.reference ∈ log.map Rule.reference then latest log else rule :: latest log

/-- The references that are left are those of the log, each in the place where it comes last. -/
theorem map_reference_latest (log : List Rule) :
    (latest log).map Rule.reference = (log.map Rule.reference).dedup := by
  induction log with
  | nil => rfl
  | cons rule log ih =>
    rw [latest, List.map_cons]
    by_cases hagain : rule.reference ∈ log.map Rule.reference
    · rw [if_pos hagain, List.dedup_cons_of_mem hagain]
      exact ih
    · rw [if_neg hagain, List.dedup_cons_of_notMem hagain, List.map_cons, ih]

/-- Taking the latest rules loses no reference. -/
theorem mem_map_reference_latest {reference : Reference} {log : List Rule} :
    reference ∈ (latest log).map Rule.reference ↔ reference ∈ log.map Rule.reference := by
  rw [map_reference_latest, List.mem_dedup]

/-- One more insertion takes out the rule with the same reference and puts the new one at the
    end. -/
theorem latest_concat (log : List Rule) (rule : Rule) :
    latest (log ++ [rule]) = others (latest log) rule.key ++ [rule] := by
  induction log with
  | nil => rfl
  | cons first log ih =>
    have hbehind : first.reference ∈ (log ++ [rule]).map Rule.reference ↔
        first.reference ∈ log.map Rule.reference ∨ first.key = rule.key := by
      rw [List.map_append, List.mem_append, List.map_singleton, List.mem_singleton,
        Rule.key_eq_iff]
    rw [List.cons_append, latest, latest, ih]
    -- a rule further behind hides the first one either way, else only the new one can
    by_cases hlog : first.reference ∈ log.map Rule.reference
    · rw [if_pos hlog, if_pos (hbehind.mpr (.inl hlog))]
    · rw [if_neg hlog]
      by_cases hkey : first.key = rule.key
      · rw [if_pos (hbehind.mpr (.inr hkey)), others_cons_of_eq hkey]
      · have hnot : first.reference ∉ (log ++ [rule]).map Rule.reference := by
          intro hmem
          rcases hbehind.mp hmem with h | h
          · exact hlog h
          · exact hkey h
        rw [if_neg hnot, others_cons_of_ne hkey, List.cons_append]

/-- A store of some rules holds the latest of them. -/
theorem rules_ofList (log : List Rule) : (ofList log).rules = latest log := by
  induction log using List.reverseRecOn with
  | nil => rfl
  | append_singleton log rule ih =>
    have hlast : ofList (log ++ [rule]) = (ofList log).insert rule := by
      rw [ofList, insertAll, List.foldl_append]
      rfl
    rw [hlast, rules_insert, ih, latest_concat]

/-! ## All changes -/

/-- A source gives a store if it gives all of its rules. -/
theorem ofSource_eq (source : List (Except ε Rule)) :
    ofSource source = (source.mapM id).map ofList := by
  -- the rules are inserted as they come, so the store in front may be any
  have hfrom : ∀ store : Store,
      source.foldlM (fun store rule => rule.map store.insert) store =
        (source.mapM id).map store.insertAll := by
    induction source with
    | nil => exact fun store => rfl
    | cons first source ih =>
      intro store
      rw [List.foldlM_cons, List.mapM_cons]
      cases first with
      | error e => rfl
      | ok rule =>
        show source.foldlM _ (store.insert rule) = _
        rw [ih (store.insert rule)]
        show _ = Except.map _ (source.mapM id >>= _)
        cases source.mapM id <;> rfl
  exact hfrom empty

/-- A source that fails somewhere gives no rules, whatever it would give behind that. -/
theorem mapM_id_of_error (rules : List Rule) (error : ε) (rest : List (Except ε Rule)) :
    (rules.map Except.ok ++ Except.error error :: rest).mapM id = Except.error error := by
  induction rules with
  | nil => rfl
  | cons rule rules ih =>
    rw [List.map_cons, List.cons_append, List.mapM_cons, ih]
    rfl

/-- A source that fails changes nothing, however many rules it has given before. -/
theorem replaceAll_of_error (store : Store) (rules : List Rule) (error : ε)
    (rest : List (Except ε Rule)) :
    store.replaceAll (rules.map Except.ok ++ Except.error error :: rest) =
      (Except.error error, store) := by
  rw [replaceAll, ofSource_eq, mapM_id_of_error]
  rfl

/-- A change keeps store and log in step. -/
theorem rules_apply {store : Store} {log : List Rule} (h : store.rules = latest log)
    (change : Change ε) : (change.apply store).rules = latest (change.record log) := by
  cases change with
  | insert rule =>
    show others store.rules rule.key ++ [rule] = _
    rw [h, Change.record, latest_concat]
  | deleteAll => rfl
  | replaceAll source =>
    rw [Change.apply, Change.record, replaceAll, ofSource_eq]
    cases source.mapM id with
    | error e => exact h
    | ok rules => exact rules_ofList rules

/-- Changes keep store and log in step. -/
theorem rules_after {store : Store} {log : List Rule} (h : store.rules = latest log)
    (changes : List (Change ε)) : (after store changes).rules = latest (logged log changes) := by
  induction changes generalizing store log with
  | nil => exact h
  | cons change changes ih => exact ih (rules_apply h change)

/-- **A store holds the latest rules of its log.**  After any changes the rules in the store are
    those of the log behind which no other one with the same reference was inserted, in this order.
    So no two of them have one reference, and there are as many as the log has references.  Putting
    a rule tells whether its reference is in the log, and a source that fails changes nothing.  A
    rule is found exactly if it is one of the latest and its reference is meant, and none is found
    exactly where the reference that is meant is not in the log. -/
theorem rules_after_eq_latest (initial : List Rule) (changes : List (Change ε)) :
    let store := after (ofList initial) changes
    let log := logged initial changes
    store.rules = latest log ∧
    (store.rules.map Rule.reference).Nodup ∧
    store.size = (log.map Rule.reference).dedup.length ∧
    (∀ rule, (store.put rule).1 = true ↔ rule.reference ∈ log.map Rule.reference) ∧
    (∀ (rules : List Rule) (error : ε) (rest : List (Except ε Rule)),
      store.replaceAll (rules.map Except.ok ++ Except.error error :: rest) =
        (Except.error error, store)) ∧
    ∀ target deviceAppId packageName,
      (∀ rule, store.find target deviceAppId packageName = .ok rule ↔
        rule ∈ latest log ∧ rule.reference.MeantBy target deviceAppId packageName) ∧
      (∀ reference, store.find target deviceAppId packageName = .error (.noRule reference) ↔
        reference ∉ log.map Rule.reference ∧
          reference.MeantBy target deviceAppId packageName) ∧
      ∀ found, store.has target deviceAppId packageName = .ok found ↔
        ∃ reference : Reference, reference.MeantBy target deviceAppId packageName ∧
          (found = true ↔ reference ∈ log.map Rule.reference) := by
  intro store log
  have hrules : store.rules = latest log := rules_after (rules_ofList initial) changes
  have hreferences : store.rules.map Rule.reference = (log.map Rule.reference).dedup := by
    rw [hrules, map_reference_latest]
  -- the references are all that the size, `put`, `find` and `has` look at
  have hmem : ∀ reference, reference ∈ store.rules.map Rule.reference ↔
      reference ∈ log.map Rule.reference := by
    intro reference
    rw [hrules, mem_map_reference_latest]
  refine ⟨hrules, ?_, ?_, ?_, replaceAll_of_error store, ?_⟩
  · rw [hreferences]
    exact List.nodup_dedup _
  · rw [← hreferences, List.length_map, size]
  · intro rule
    rw [← hmem]
    exact contains_eq_true_iff
  · intro target deviceAppId packageName
    refine ⟨fun rule => ?_, fun reference => ?_, fun found => ?_⟩
    · rw [find_eq_ok_iff, hrules]
    · rw [find_eq_noRule_iff, hmem]
    · simp only [has_eq_ok_iff, hmem]

/-- Of four insertions two rules are left, and the one that was inserted again comes last. -/
example :
    let first : Rule := ⟨⟨.any, [], none⟩, { nfc := some .always }⟩
    let second : Rule := ⟨⟨.aid [0xa0], [], none⟩, { nfc := some .never }⟩
    let again : Rule := ⟨⟨.any, [], none⟩, { nfc := some .never }⟩
    latest [first, first, second, again] = [second, again] := by decide

end AccessRules.Store
