import AccessRules.Store

/-!
# The order of a store

What a store holds after some rules have been inserted is a part of what it held before and of the
rules, in the same order (`rules_insertAll_sublist`); nothing is moved but by being inserted again.
Rules with distinct keys that the store does not know are put behind the others, all of them and in
order (`rules_insertAll_of_nodup`), so a store is made again from its own rules (`ofList_rules`).
-/

namespace AccessRules

namespace Store

/-- A store is the list of its rules. -/
theorem ext_rules {store other : Store} (h : store.rules = other.rules) : store = other := by
  obtain ⟨rules, distinct⟩ := store
  obtain ⟨rules', distinct'⟩ := other
  obtain rfl : rules = rules' := h
  rfl

theorem insertAll_cons (store : Store) (rule : Rule) (rules : List Rule) :
    store.insertAll (rule :: rules) = (store.insert rule).insertAll rules := rfl

theorem others_sublist (rules : List Rule) (key : String) : (others rules key).Sublist rules :=
  List.filter_sublist

/-- A rule with the key is left out. -/
theorem others_cons_of_eq {rule : Rule} {key : String} (h : rule.key = key) (rules : List Rule) :
    others (rule :: rules) key = others rules key :=
  List.filter_cons_of_neg (by simpa using h)

/-- A rule with another key stays where it is. -/
theorem others_cons_of_ne {rule : Rule} {key : String} (h : rule.key ≠ key) (rules : List Rule) :
    others (rule :: rules) key = rule :: others rules key :=
  List.filter_cons_of_pos (by simpa using h)

/-- Inserting rules keeps the order and adds nothing else. -/
theorem rules_insertAll_sublist (store : Store) (rules : List Rule) :
    (store.insertAll rules).rules.Sublist (store.rules ++ rules) := by
  induction rules generalizing store with
  | nil =>
    rw [List.append_nil]
    exact .refl _
  | cons rule rules ih =>
    have hinsert : (store.insert rule).rules.Sublist (store.rules ++ [rule]) :=
      (others_sublist store.rules rule.key).append_right [rule]
    have happend := hinsert.append_right rules
    rw [List.append_assoc, List.singleton_append] at happend
    rw [insertAll_cons]
    exact (ih (store.insert rule)).trans happend

/-- A store of some rules holds nothing else, in their order. -/
theorem rules_ofList_sublist (rules : List Rule) : (ofList rules).rules.Sublist rules :=
  rules_insertAll_sublist empty rules

/-- A key that no rule has takes no rule out. -/
theorem others_eq_self {rules : List Rule} {key : String} (h : key ∉ rules.map Rule.key) :
    others rules key = rules := by
  refine List.filter_eq_self.mpr fun rule hmem => ?_
  rw [decide_eq_true_eq]
  intro heq
  exact h (heq ▸ List.mem_map_of_mem hmem)

/-- New rules with distinct keys are put behind the others. -/
theorem rules_insertAll_of_nodup {store : Store} {rules : List Rule}
    (h : ((store.rules ++ rules).map Rule.key).Nodup) :
    (store.insertAll rules).rules = store.rules ++ rules := by
  -- the distinct keys of old and new rules together are what inserting one rule preserves
  induction rules generalizing store with
  | nil => exact (List.append_nil _).symm
  | cons rule rules ih =>
    have hnew : rule.key ∉ store.rules.map Rule.key := by
      rw [List.map_append, List.nodup_append] at h
      intro hmem
      exact h.2.2 rule.key hmem rule.key List.mem_cons_self rfl
    have hinsert : (store.insert rule).rules = store.rules ++ [rule] := by
      rw [rules_insert, others_eq_self hnew]
    rw [List.append_cons, ← hinsert] at h
    rw [insertAll_cons, ih h, hinsert, ← List.append_cons]

/-- Rules with distinct keys are the rules of their store, in the same order. -/
theorem rules_ofList_of_nodup {rules : List Rule} (h : (rules.map Rule.key).Nodup) :
    (ofList rules).rules = rules :=
  @rules_insertAll_of_nodup empty rules h

/-- A store is made again from its own rules. -/
theorem ofList_rules (store : Store) : ofList store.rules = store :=
  ext_rules (rules_ofList_of_nodup store.distinct)

end Store

end AccessRules
