import AccessRules.Proofs.Replay.Lines
import AccessRules.Proofs.Rule.Arrangement
import AccessRules.Proofs.Script.Printing
import AccessRules.Proofs.Store.Order

/-!
# Restoring a store from its script

The script that is printed for a store makes the store again, whatever was there before
(`run_print`).  Without a transport its lines do three things:

1. The label is selected, and the rules that were there are deleted.

2. The rules are inserted one by one: by induction on them, the replay then holds what inserting all
   of them gives (`runFrom_lines_rules`).

3. The empty line at the end says nothing.

A store is what inserting its own rules into the empty store gives (`Store.ofList_rules`), so this
is the store that was printed.
-/

namespace AccessRules.Replay

variable {σ ε : Type}

/-! ## Operations without a transport -/

/-- A target is taken by its label. -/
theorem execute_selectTarget (last : Option Target) (label : String) (state : State σ) :
    (execute (none : Option (Transport σ ε)) last (.selectTarget label)).runFrom state =
      (.ok ⟨label, none⟩, state) := rfl

/-- Deleting all rules leaves the empty store. -/
theorem execute_deleteAll (target : Target) (state : State σ) :
    (execute (none : Option (Transport σ ε)) (some target) .deleteAll).runFrom state =
      (.ok target, { state with store := Store.empty }) := rfl

/-- A rule is stored in the store alone. -/
theorem execute_storeRule (target : Target) (rule : Rule) (state : State σ) :
    (execute (none : Option (Transport σ ε)) (some target) (.storeRule rule)).runFrom state =
      (.ok target, { state with store := state.store.insert rule }) := rfl

/-! ## The lines of a script -/

/-- Lines that say nothing change nothing. -/
theorem runFrom_lines_of_none {transport : Option (Transport σ ε)} {rest : List String}
    (h : ∀ text ∈ rest, Operation.parse? text = .ok none) (number : Nat) (progress : Progress)
    (state : State σ) :
    (lines transport progress (Script.numberFrom number rest)).runFrom state =
      (.ok progress, state) := by
  induction rest generalizing number with
  | nil => rfl
  | cons text rest ih =>
    have htext := h text List.mem_cons_self
    rw [Script.numberFrom, runFrom_lines_of_ok (runFrom_line_of_none htext)]
    exact ih (fun other hmem => h other (List.mem_cons_of_mem _ hmem)) (number + 1)

/-- Rules on lines of their own are inserted one by one, and then come the lines behind them. -/
theorem runFrom_lines_rules_append {rules : List Rule} (h : ∀ rule ∈ rules, rule.Valid)
    (number executed : Nat) (target : Target) (rest : List String) (state : State σ) :
    (lines (none : Option (Transport σ ε)) ⟨executed, some target⟩
        (Script.numberFrom number
          ((rules.map Operation.storeRule).map Operation.print ++ rest))).runFrom state =
      (lines none ⟨executed + rules.length, some target⟩
        (Script.numberFrom (number + rules.length) rest)).runFrom
          { state with store := state.store.insertAll rules } := by
  -- with each line its number, the count and the store move on
  induction rules generalizing number executed state with
  | nil => rfl
  | cons rule rules ih =>
    have hparse := @Operation.parse?_print (.storeRule rule) (h rule List.mem_cons_self)
    have hline := @runFrom_line_of_ok σ ε none ⟨executed, some target⟩ _ _ _ _ _ hparse
      (execute_storeRule target rule state)
    have hrest := ih (fun other hmem => h other (List.mem_cons_of_mem _ hmem)) (number + 1)
      (executed + 1) { state with store := state.store.insert rule }
    rw [List.map_cons, List.map_cons, List.cons_append, Script.numberFrom,
      runFrom_lines_of_ok hline, hrest, List.length_cons, Nat.add_right_comm executed,
      Nat.add_right_comm number, Nat.add_assoc executed, Nat.add_assoc number]
    rfl

/-- Rules on lines of their own are inserted one by one. -/
theorem runFrom_lines_rules {rules : List Rule} (h : ∀ rule ∈ rules, rule.Valid)
    (number executed : Nat) (target : Target) (state : State σ) :
    (lines (none : Option (Transport σ ε)) ⟨executed, some target⟩
        (Script.numberFrom number
          ((rules.map Operation.storeRule).map Operation.print ++ [""]))).runFrom state =
      (.ok ⟨executed + rules.length, some target⟩,
        { state with store := state.store.insertAll rules }) := by
  rw [runFrom_lines_rules_append h]
  exact runFrom_lines_of_none (List.forall_mem_singleton.mpr Operation.parse?_empty) _ _ _

/-- What is printed to restore rules can be read back if the label is a word and the rules are
    valid. -/
theorem printable_of_mem_restore {target : Option String} {readBack : Bool} {rules : List Rule}
    (htarget : ∀ label ∈ target, Text.IsWord label) (hrules : ∀ rule ∈ rules, rule.Valid)
    {operation : Operation} (h : operation ∈ Script.restore target readBack rules) :
    operation.Printable := by
  rcases List.mem_append.mp h with hrestored | hread
  · simp only [List.mem_cons, List.mem_map] at hrestored
    rcases hrestored with rfl | rfl | ⟨rule, hmem, rfl⟩
    · cases target with
      | none => exact Text.isWord_of_all (by decide) (by decide)
      | some label => exact htarget label rfl
    · trivial
    · exact hrules rule hmem
  · cases readBack with
    | false => cases hread
    | true => exact List.mem_singleton.mp hread ▸ trivial

/-- A script with the lines that restore rules, and none behind them that says anything, leaves
    nothing but these rules in the store. -/
theorem runFrom_run_of_lines {target : Option String} {rules : List Rule} {script : String}
    {rest : List String}
    (hlines : Script.lines script = Script.numberFrom 1
      ((Script.restore target false rules).map Operation.print ++ rest))
    (hrest : ∀ text ∈ rest, Operation.parse? text = .ok none)
    (htarget : ∀ label ∈ target, Text.IsWord label) (hrules : ∀ rule ∈ rules, rule.Valid)
    (state : State σ) :
    (run (none : Option (Transport σ ε)) script).runFrom state =
      (.ok ⟨2 + rules.length, some ⟨target.getD Script.defaultTarget, none⟩⟩,
        { state with store := Store.ofList rules }) := by
  have hselect : Operation.Printable (.selectTarget (target.getD Script.defaultTarget)) :=
    @printable_of_mem_restore _ false _ htarget hrules _ List.mem_cons_self
  have hoperations : Script.restore target false rules =
      .selectTarget (target.getD Script.defaultTarget) :: .deleteAll :: rules.map .storeRule :=
    List.append_nil _
  rw [run, hlines, hoperations, List.map_cons, List.map_cons, List.cons_append, List.cons_append,
    Script.numberFrom, Script.numberFrom]
  -- line by line: the target, the deletion, the rules and what follows them
  rw [runFrom_lines_of_ok (runFrom_line_of_ok (Operation.parse?_print hselect)
      (execute_selectTarget none _ _)),
    runFrom_lines_of_ok (runFrom_line_of_ok (@Operation.parse?_print .deleteAll trivial)
      (execute_deleteAll _ _)),
    runFrom_lines_rules_append hrules, runFrom_lines_of_none hrest]
  rfl

/-! ## The round trip -/

/-- **A printed store is restored from its script**, rule by rule and in the same order, whatever
    the store held on which the script is replayed. -/
theorem run_print (store other : Store) (target : Option String) (transport : σ)
    (output : List String) (hmade : ∀ rule ∈ store.rules, rule.Made)
    (htarget : ∀ label ∈ target, label ≠ "" ∧ ∀ c ∈ label.toList, Text.isBlank c = false) :
    (run (none : Option (Transport σ ε)) (Script.print target false store.rules)).runFrom
        ⟨other, transport, output⟩ =
      (.ok ⟨2 + store.size, some ⟨target.getD Script.defaultTarget, none⟩⟩,
        ⟨store, transport, output⟩) := by
  have hrules : ∀ rule ∈ store.rules, rule.Valid := fun rule hmem =>
    Rule.made_iff_valid.mp (hmade rule hmem)
  have hword : ∀ label ∈ target, Text.IsWord label := fun label hmem =>
    ⟨(htarget label hmem).1, (htarget label hmem).2⟩
  have hprintable : ∀ operation ∈ Script.restore target false store.rules, operation.Printable :=
    fun operation hmem => printable_of_mem_restore hword hrules hmem
  have hselect := hprintable (.selectTarget (target.getD Script.defaultTarget)) List.mem_cons_self
  have hoperations : Script.restore target false store.rules =
      .selectTarget (target.getD Script.defaultTarget) :: .deleteAll ::
        store.rules.map .storeRule := List.append_nil _
  -- the numbered lines of the script are those of the printed operations
  rw [run, Script.print, Script.lines_ofOperations hprintable, hoperations, List.map_cons,
    List.map_cons, List.cons_append, List.cons_append, Script.numberFrom, Script.numberFrom]
  rw [runFrom_lines_of_ok (runFrom_line_of_ok (Operation.parse?_print hselect)
      (execute_selectTarget none _ _)),
    runFrom_lines_of_ok (runFrom_line_of_ok (@Operation.parse?_print .deleteAll trivial)
      (execute_deleteAll _ _)),
    runFrom_lines_rules hrules]
  show (Except.ok (⟨2 + store.size, _⟩ : Progress),
    ({ store := Store.ofList store.rules, transport, output } : State σ)) = _
  -- the rules of a store give the store again
  rw [Store.ofList_rules]

/-- Two rules restored in place of one with the key of the second. -/
theorem run_print_of_two_rules :
    let named : Rule := ⟨⟨.any, [], some "a#--b/empty"⟩, { nfc := some .never }⟩
    let filtered : Rule :=
      ⟨⟨.aid [0xa0], [], none⟩, { apdu := some (.filtered [⟨[0, 1, 2, 3], [4, 5, 6, 7]⟩]) }⟩
    let store : Store := ⟨[named, filtered], by decide⟩
    let other : Store := ⟨[{ filtered with access := { nfc := some .always } }], by decide⟩
    (run (none : Option (Transport Unit Unit))
        (Script.print (some "a/b") false store.rules)).runFrom ⟨other, (), ["before"]⟩ =
      (.ok ⟨4, some ⟨"a/b", none⟩⟩, ⟨store, (), ["before"]⟩) := by
  intro named filtered store other
  have hmade : ∀ rule ∈ store.rules, rule.Made := by
    intro rule hmem
    rcases List.mem_cons.mp hmem with rfl | hmem
    · exact .created (show Rule.create named.asInput = .ok named from rfl)
    · obtain rfl := List.mem_singleton.mp hmem
      exact .created (show Rule.create filtered.asInput = .ok filtered from rfl)
  refine run_print store other (some "a/b") () ["before"] hmade fun label hlabel => ?_
  obtain rfl := Option.mem_some.mp hlabel
  have hword := @Text.isWord_of_all "a/b" (by decide) (by decide)
  exact ⟨hword.nonempty, hword.solid⟩

end AccessRules.Replay
