import AccessRules.Rule.Input

/-!
# The rule store

A store keeps rules in the order of their last insertion, one for each key. Inserting a rule with a
key that is there takes the old rule out and puts the new one at the end. Rules are told apart by
their keys alone, which are texts.
-/

namespace AccessRules

/-- Rules in order, no two of them with the same key. -/
structure Store where
  rules : List Rule
  distinct : (rules.map Rule.key).Nodup
  deriving DecidableEq, Repr

/-- Why no rule is found. -/
inductive LookupError
  /-- What is asked for is no reference. -/
  | input (flaw : InputFlaw)
  /-- No rule has the reference. -/
  | noRule (reference : Reference)
  deriving DecidableEq, Repr

/-- The report of a rule that is not found. -/
def LookupError.report : LookupError → Report
  | .input flaw => flaw.report
  | .noRule reference => Report.notFound ("No access rule for " ++ reference.key)

namespace Store

/-- The store without rules. -/
def empty : Store := ⟨[], List.nodup_nil⟩

/-- How many rules there are. -/
def size (store : Store) : Nat := store.rules.length

/-- Whether there is a rule for a reference. -/
def contains (store : Store) (reference : Reference) : Bool :=
  store.rules.any (·.key = reference.key)

/-! ## Changes -/

/-- The rules with any other key, in their order. -/
def others (rules : List Rule) (key : String) : List Rule := rules.filter (·.key ≠ key)

/-- Puts a rule at the end and takes out the one with the same key. -/
def insert (store : Store) (rule : Rule) : Store where
  rules := others store.rules rule.key ++ [rule]
  distinct := by
    rw [List.map_append, List.nodup_append]
    refine ⟨(List.filter_sublist.map _).nodup store.distinct, by simp, ?_⟩
    intro key old new found
    simp only [others, List.mem_map, List.mem_filter, decide_eq_true_eq] at old
    obtain ⟨other, ⟨-, differs⟩, rfl⟩ := old
    simp only [List.map_cons, List.map_nil, List.mem_singleton] at found
    exact found ▸ differs

/-- The store after inserting rules one by one. -/
def insertAll (store : Store) (rules : List Rule) : Store := rules.foldl insert store

/-- The store of some rules, of which the last one with each key counts. -/
def ofList (rules : List Rule) : Store := empty.insertAll rules

/-- Inserts a rule and tells whether it took the place of another one. -/
def put (store : Store) (rule : Rule) : Bool × Store :=
  (store.contains rule.reference, store.insert rule)

/-- The store of the rules that a source gives one by one, or what made the source fail. -/
def ofSource {ε : Type} (source : List (Except ε Rule)) : Except ε Store :=
  source.foldlM (fun store rule => rule.map store.insert) empty

/-- Exchanges the rules for those of a source. If the source fails the rules stay as they were. -/
def replaceAll {ε : Type} (store : Store) (source : List (Except ε Rule)) :
    Except ε Unit × Store :=
  match ofSource source with
  | .ok replaced => (.ok (), replaced)
  | .error error => (.error error, store)

/-! ## Look-up -/

/-- The rule for a reference. -/
def find? (store : Store) (reference : Reference) : Option Rule :=
  store.rules.find? (·.key = reference.key)

/-- The rule for a reference as callers hand it over. -/
def find (store : Store) (target : TargetInput) (deviceAppId : Octets)
    (packageName : Option String) : Except LookupError Rule := do
  let reference ← (readReference target deviceAppId packageName).mapError .input
  match store.find? reference with
  | some rule => .ok rule
  | none => .error (.noRule reference)

/-- Whether there is a rule for a reference as callers hand it over. -/
def has (store : Store) (target : TargetInput) (deviceAppId : Octets)
    (packageName : Option String) : Except InputFlaw Bool :=
  (readReference target deviceAppId packageName).map store.contains

@[simp] theorem rules_insert (store : Store) (rule : Rule) :
    (store.insert rule).rules = others store.rules rule.key ++ [rule] := rfl

@[simp] theorem rules_empty : empty.rules = [] := rfl

end Store

end AccessRules
