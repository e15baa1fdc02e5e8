import AccessRules.Proofs.Canonical.Rows
import AccessRules.Proofs.Replay.Batch
import AccessRules.Proofs.Replay.Restore
import AccessRules.Proofs.Store.Repetition

/-!
# Replaying a script again

A script that is replayed without a transport changes the store once and for all: replaying it again
succeeds and leaves the store as it is, and a script that deletes all rules leaves the same store
whatever was there before (`run_again`).

1. **What is changed** — an operation makes the change that `Operation.change?` names, and the
   operations of a script make theirs one after the other (`store_of_carryOut`).  So what holds of
   changes that are made again holds of scripts.

2. **What can fail** — whether an operation succeeds depends on the store only where the rules are
   read back, which must have encodings (`execute_elsewhere`).  By induction on the operations a
   script that has succeeded succeeds on every store all of whose rules have encodings, if those it
   stores have (`carryOut_elsewhere`).
-/

namespace AccessRules

/-! ## What is changed -/

/-- What an operation changes in the store, if anything. -/
def Operation.change? : Operation → Option (Store.Change Empty)
  | .deleteAll => some .deleteAll
  | .storeRule rule => some (.insert rule)
  | .selectTarget _ | .readAll => none

/-- What some operations change in the store. -/
def changesOf (operations : List (Script.Numbered Operation)) : List (Store.Change Empty) :=
  operations.filterMap fun numbered => numbered.item.change?

/-- The store after what an operation changes in it. -/
def Store.changedBy (store : Store) (operation : Operation) : Store :=
  Store.after store operation.change?.toList

/-- The change in front is made first. -/
theorem after_changesOf_cons (store : Store) (numbered : Script.Numbered Operation)
    (operations : List (Script.Numbered Operation)) :
    Store.after store (changesOf (numbered :: operations)) =
      Store.after (store.changedBy numbered.item) (changesOf operations) := by
  rw [changesOf, List.filterMap_cons, Store.changedBy]
  cases numbered.item.change? <;> rfl

/-- What is stored after an operation was there before or is the rule that it stores. -/
theorem mem_changedBy {store : Store} {operation : Operation} {rule : Rule}
    (h : rule ∈ (store.changedBy operation).rules) :
    rule ∈ store.rules ∨ operation = .storeRule rule := by
  cases operation with
  | selectTarget label => exact .inl h
  | readAll => exact .inl h
  | deleteAll => cases h
  | storeRule other =>
    rcases List.mem_append.mp h with hold | hnew
    · exact .inl (List.mem_of_mem_filter hold)
    · exact .inr (List.mem_singleton.mp hnew ▸ rfl)

/-- What is stored after some operations was there before or is a rule that one of them stores. -/
theorem mem_after_changesOf {store : Store} {operations : List (Script.Numbered Operation)}
    {rule : Rule} (h : rule ∈ (Store.after store (changesOf operations)).rules) :
    rule ∈ store.rules ∨ ∃ numbered ∈ operations, numbered.item = .storeRule rule := by
  induction operations generalizing store with
  | nil => exact .inl h
  | cons numbered operations ih =>
    rw [after_changesOf_cons] at h
    rcases ih h with hchanged | ⟨other, hmem, hitem⟩
    · rcases mem_changedBy hchanged with hold | hnew
      · exact .inl hold
      · exact .inr ⟨numbered, List.mem_cons_self, hnew⟩
    · exact .inr ⟨other, List.mem_cons_of_mem _ hmem, hitem⟩

/-- Rules have an encoding in a row exactly if each of them has one. -/
theorem Canonical.exists_encode_iff {rules : List Rule} :
    (∃ octets, Canonical.encode rules = .ok octets) ↔
      ∀ rule ∈ rules, ∃ octets, rule.encode = .ok octets := by
  induction rules with
  | nil => exact ⟨fun _ => nofun, fun _ => ⟨[], rfl⟩⟩
  | cons rule rules ih =>
    rw [List.forall_mem_cons, ← ih]
    constructor
    · rintro ⟨octets, h⟩
      obtain ⟨first, rest, hfirst, hrest, -⟩ := Canonical.encode_cons_eq_ok_iff.mp h
      exact ⟨⟨first, hfirst⟩, rest, hrest⟩
    · rintro ⟨⟨first, hfirst⟩, rest, hrest⟩
      exact ⟨first ++ rest, Canonical.encode_cons_eq_ok_iff.mpr ⟨first, rest, hfirst, hrest, rfl⟩⟩

namespace Script

/-- `Contains script operation` — the operation stands on a line of the script. -/
def Contains (script : String) (operation : Operation) : Prop :=
  ∃ text ∈ Text.lines script, Operation.parse? text = .ok (some operation)

/-- What is read from a script stands on a line of it. -/
theorem contains_of_mem_parse {script : String} {operations : List (Numbered Operation)}
    (h : parse script = .ok operations) {numbered : Numbered Operation}
    (hmem : numbered ∈ operations) : Contains script numbered.item := by
  rw [← readable_of_parseLines h] at hmem
  obtain ⟨text, hline, hparse⟩ := mem_readable hmem
  exact ⟨text, List.mem_of_getElem? (mem_lines_iff.mp hline).2, hparse⟩

/-- What stands on a line is read from it, if all lines can be read. -/
theorem mem_of_parseLines {ls : List (Numbered String)}
    {operations : List (Numbered Operation)} (h : parseLines ls = .ok operations)
    {numbered : Numbered String} (hmem : numbered ∈ ls) {operation : Operation}
    (hline : Operation.parse? numbered.item = .ok (some operation)) :
    ⟨numbered.line, operation⟩ ∈ operations := by
  induction ls generalizing operations with
  | nil => cases hmem
  | cons first ls ih =>
    obtain ⟨number, text⟩ := first
    cases htext : Operation.parse? text with
    | error flaw =>
      rw [parseLines_cons_of_error htext] at h
      cases h
    | ok found =>
      cases found with
      | none =>
        rw [parseLines_cons_of_none htext] at h
        -- the line is not the one in front, which holds no operation
        rcases List.mem_cons.mp hmem with rfl | hmem
        · cases htext.symm.trans hline
        · exact ih h hmem
      | some other =>
        rw [parseLines_cons_of_some htext] at h
        obtain ⟨rest, hrest, rfl⟩ := map_eq_ok_iff.mp h
        rcases List.mem_cons.mp hmem with rfl | hmem
        · cases htext.symm.trans hline
          exact List.mem_cons_self
        · exact List.mem_cons_of_mem _ (ih hrest hmem)

/-- What stands on a line of a script is read from it, if the script can be read. -/
theorem exists_mem_of_contains {script : String} {operations : List (Numbered Operation)}
    (h : parse script = .ok operations) {operation : Operation}
    (hcontains : Contains script operation) :
    ∃ numbered ∈ operations, numbered.item = operation := by
  obtain ⟨text, hmem, hline⟩ := hcontains
  obtain ⟨place, hplace⟩ := List.mem_iff_getElem?.mp hmem
  have hnumbered : ⟨place + 1, text⟩ ∈ lines script :=
    mem_lines_iff.mpr ⟨Nat.le_add_left 1 place, hplace⟩
  exact ⟨_, mem_of_parseLines h hnumbered hline, rfl⟩

end Script

namespace Replay

variable {σ ε : Type} {last : Option Target} {target : Target} {operation : Operation}
  {progress next : Progress} {state after : State σ}

/-- The target behind an operation without a transport: the one that it selects, or else the one
    before it. -/
def targetBehind (last : Option Target) : Operation → Option Target
  | .selectTarget label => some ⟨label, none⟩
  | .deleteAll | .storeRule _ | .readAll => last

/-- What an operation gives out without a transport: the rules, where they are read back. -/
def messagesOf (store : Store) : Operation → Except Tlv.RangeFlaw (List String)
  | .readAll => (Canonical.encode store.rules).map fun octets => [snapshotMessage octets]
  | .selectTarget _ | .deleteAll | .storeRule _ => .ok []

/-- Without a transport the rules are read back from the store. -/
theorem runFrom_execute_readAll (target : Target) (state : State σ) :
    (execute (none : Option (Transport σ ε)) (some target) .readAll).runFrom state =
      match Canonical.encode state.store.rules with
      | .ok octets =>
        (.ok target, { state with output := state.output ++ [snapshotMessage octets] })
      | .error flaw => (.error (.unwritable flaw), state) := by
  have hstore : (encodedStore : Step (State σ) (Reason ε) Bytes).runFrom state =
      ((Canonical.encode state.store.rules).mapError Reason.unwritable, state) := rfl
  show ((encodedStore : Step (State σ) (Reason ε) Bytes) >>= fun octets =>
    say (snapshotMessage octets) >>= fun _ => pure target).runFrom state = _
  rw [Step.runFrom_bind, hstore]
  cases Canonical.encode state.store.rules <;> rfl

/-- What an operation that gives nothing out comes to. -/
theorem quiet_eq_ok_iff {store : Store} {reached : Target} :
    ((Except.ok reached, { state with store := store }) :
        Except (Reason ε) Target × State σ) = (.ok target, after) ↔
      some reached = some target ∧
        ∃ messages, (Except.ok [] : Except Tlv.RangeFlaw (List String)) = .ok messages ∧
          after = ⟨store, state.transport, state.output ++ messages⟩ := by
  constructor
  · intro h
    cases h
    exact ⟨rfl, [], rfl, by rw [List.append_nil]⟩
  · rintro ⟨htarget, _, hmessages, rfl⟩
    cases htarget
    cases hmessages
    rw [List.append_nil]

/-- Without a transport an operation succeeds exactly if there is a target behind it and the rules
    that it reads back have encodings; it makes its change and gives out what it reads. -/
theorem execute_eq_ok_iff :
    (execute (none : Option (Transport σ ε)) last operation).runFrom state = (.ok target, after) ↔
      targetBehind last operation = some target ∧
        ∃ messages, messagesOf state.store operation = .ok messages ∧
          after = ⟨state.store.changedBy operation, state.transport,
            state.output ++ messages⟩ := by
  cases operation with
  | selectTarget label => exact quiet_eq_ok_iff
  | deleteAll =>
    cases last with
    | none => exact ⟨nofun, nofun⟩
    | some last => exact quiet_eq_ok_iff
  | storeRule rule =>
    cases last with
    | none => exact ⟨nofun, nofun⟩
    | some last => exact quiet_eq_ok_iff
  | readAll =>
    cases last with
    | none => exact ⟨nofun, nofun⟩
    | some last =>
      -- it is the only operation that prints, and it fails with the encoding of the store
      rw [runFrom_execute_readAll, messagesOf]
      cases Canonical.encode state.store.rules with
      | error flaw => exact ⟨nofun, fun ⟨_, _, hmessages, _⟩ => nomatch hmessages⟩
      | ok octets =>
        constructor
        · rintro h
          cases h
          exact ⟨rfl, _, rfl, rfl⟩
        · rintro ⟨htarget, _, hmessages, rfl⟩
          cases htarget
          cases hmessages
          rfl

/-- Without a transport an operation that succeeds makes its change. -/
theorem store_of_execute
    (h : (execute (none : Option (Transport σ ε)) last operation).runFrom state =
      (.ok target, after)) : after.store = state.store.changedBy operation := by
  obtain ⟨-, messages, -, rfl⟩ := execute_eq_ok_iff.mp h
  rfl

/-- The operations of a script that succeed make their changes one after the other. -/
theorem store_of_carryOut {operations : List (Script.Numbered Operation)}
    (h : (carryOut (none : Option (Transport σ ε)) progress operations).runFrom state =
      (.ok next, after)) : after.store = Store.after state.store (changesOf operations) := by
  induction operations generalizing progress state with
  | nil =>
    cases h
    rfl
  | cons numbered operations ih =>
    obtain ⟨number, operation⟩ := numbered
    cases hrun : (execute (none : Option (Transport σ ε)) progress.target operation).runFrom
        state with
    | mk outcome middle =>
      cases outcome with
      | error reason =>
        rw [runFrom_carryOut_cons_of_error hrun] at h
        cases h
      | ok target =>
        rw [runFrom_carryOut_cons_of_ok hrun] at h
        rw [ih h, store_of_execute hrun, after_changesOf_cons]

/-! ## What can fail -/

/-- An operation that succeeds on one store succeeds on any other one all of whose rules have
    encodings, and leads to the same target. -/
theorem execute_elsewhere
    (h : (execute (none : Option (Transport σ ε)) last operation).runFrom state =
      (.ok target, after)) {other : State σ}
    (hother : ∀ rule ∈ other.store.rules, ∃ octets, rule.encode = .ok octets) :
    ∃ output, (execute (none : Option (Transport σ ε)) last operation).runFrom other =
      (.ok target, ⟨other.store.changedBy operation, other.transport, output⟩) := by
  obtain ⟨htarget, -⟩ := execute_eq_ok_iff.mp h
  obtain ⟨messages, hmessages⟩ : ∃ messages, messagesOf other.store operation = .ok messages := by
    cases operation with
    | readAll =>
      obtain ⟨octets, hoctets⟩ := Canonical.exists_encode_iff.mpr hother
      exact ⟨_, map_eq_ok_iff.mpr ⟨octets, hoctets, rfl⟩⟩
    | selectTarget label | deleteAll | storeRule rule => exact ⟨[], rfl⟩
  exact ⟨_, execute_eq_ok_iff.mpr ⟨htarget, messages, hmessages, rfl⟩⟩

/-- Operations that succeed on one store succeed on any other one all of whose rules have encodings,
    if the rules that they store have. -/
theorem carryOut_elsewhere {operations : List (Script.Numbered Operation)}
    (h : (carryOut (none : Option (Transport σ ε)) progress operations).runFrom state =
      (.ok next, after)) {other : State σ}
    (hother : ∀ rule ∈ other.store.rules, ∃ octets, rule.encode = .ok octets)
    (hstored : ∀ numbered ∈ operations, ∀ rule, numbered.item = .storeRule rule →
      ∃ octets, rule.encode = .ok octets) :
    ∃ output, (carryOut (none : Option (Transport σ ε)) progress operations).runFrom other =
      (.ok next, ⟨Store.after other.store (changesOf operations), other.transport, output⟩) := by
  induction operations generalizing progress state other with
  | nil =>
    cases h
    exact ⟨other.output, rfl⟩
  | cons numbered operations ih =>
    obtain ⟨number, operation⟩ := numbered
    obtain ⟨hfirst, hrest⟩ := List.forall_mem_cons.mp hstored
    cases hrun : (execute (none : Option (Transport σ ε)) progress.target operation).runFrom
        state with
    | mk outcome middle =>
      cases outcome with
      | error reason =>
        rw [runFrom_carryOut_cons_of_error hrun] at h
        cases h
      | ok target =>
        rw [runFrom_carryOut_cons_of_ok hrun] at h
        obtain ⟨shown, helsewhere⟩ := execute_elsewhere hrun hother
        -- the rule that the operation stores has an encoding as those before it
        have hchanged : ∀ rule ∈ (other.store.changedBy operation).rules,
            ∃ octets, rule.encode = .ok octets := by
          intro rule hmem
          rcases mem_changedBy hmem with hold | hnew
          · exact hother rule hold
          · exact hfirst rule hnew
        obtain ⟨output, hafter⟩ :=
          @ih _ _ h ⟨other.store.changedBy operation, other.transport, shown⟩ hchanged hrest
        refine ⟨output, ?_⟩
        rw [runFrom_carryOut_cons_of_ok helsewhere, hafter, after_changesOf_cons]

/-! ## The whole script -/

/-- A replay that succeeds has read the whole script and carried it out. -/
theorem exists_parse_of_run {transport : Option (Transport σ ε)} {script : String}
    (h : (run transport script).runFrom state = (.ok progress, after)) :
    ∃ operations, Script.parse script = .ok operations ∧
      (carryOut transport {} operations).runFrom state = (.ok progress, after) := by
  cases hparse : Script.parse script with
  | ok operations =>
    rw [runFrom_run_of_parse hparse] at h
    exact ⟨operations, rfl, h⟩
  | error error =>
    rw [run, runFrom_lines_eq, show Script.parseLines (Script.lines script) = _ from hparse] at h
    cases hcarried : (carryOut transport {} (Script.readable (Script.lines script))).runFrom
        state with
    | mk outcome reached =>
      rw [hcarried] at h
      cases outcome <;> cases h

/-- **Replaying a script again changes nothing.**  A script that succeeds without a transport
    succeeds again on the store that it has left, if all rules of the store before it and all rules
    on its lines have encodings: it comes to the same target by as many operations and leaves the
    store as it is.  And if a line deletes all rules, the script leaves the same store behind
    wherever it succeeds, whatever was there before. -/
theorem run_again (script : String) :
    (∀ (state after : State σ) (progress : Progress),
      (∀ rule, rule ∈ state.store.rules ∨ Script.Contains script (.storeRule rule) →
        ∃ octets, rule.encode = .ok octets) →
      (run (none : Option (Transport σ ε)) script).runFrom state = (.ok progress, after) →
      ∀ again : State σ, again.store = after.store →
        ∃ output, (run (none : Option (Transport σ ε)) script).runFrom again =
          (.ok progress, { again with output := output })) ∧
    (Script.Contains script .deleteAll →
      ∀ (first second firstAfter secondAfter : State σ) (progress progress' : Progress),
        (run (none : Option (Transport σ ε)) script).runFrom first = (.ok progress, firstAfter) →
        (run (none : Option (Transport σ ε)) script).runFrom second =
          (.ok progress', secondAfter) →
        firstAfter.store = secondAfter.store) := by
  constructor
  · intro state after progress hencoded hrun again hagain
    obtain ⟨operations, hparse, hcarried⟩ := exists_parse_of_run hrun
    have hstore := store_of_carryOut hcarried
    have hstored : ∀ numbered ∈ operations, ∀ rule, numbered.item = .storeRule rule →
        ∃ octets, rule.encode = .ok octets := fun numbered hmem rule hitem =>
      hencoded rule (.inr (hitem ▸ Script.contains_of_mem_parse hparse hmem))
    -- each rule left behind was there before or was stored by a line
    have hrules : ∀ rule ∈ again.store.rules, ∃ octets, rule.encode = .ok octets := by
      intro rule hmem
      rw [hagain, hstore] at hmem
      rcases mem_after_changesOf hmem with hold | ⟨numbered, hmem, hitem⟩
      · exact hencoded rule (.inl hold)
      · exact hstored numbered hmem rule hitem
    obtain ⟨output, helsewhere⟩ := carryOut_elsewhere hcarried hrules hstored
    refine ⟨output, ?_⟩
    rw [runFrom_run_of_parse hparse, helsewhere, hagain, hstore, Store.after_after, ← hstore,
      ← hagain]
  · intro hcontains first second firstAfter secondAfter progress progress' hfirst hsecond
    obtain ⟨operations, hparse, hcarried⟩ := exists_parse_of_run hfirst
    obtain ⟨others, hparse', hcarried'⟩ := exists_parse_of_run hsecond
    obtain rfl := Except.ok.inj (hparse.symm.trans hparse')
    obtain ⟨numbered, hmem, hitem⟩ := Script.exists_mem_of_contains hparse hcontains
    -- the last deletion makes the store before it count for nothing
    have hresets : ∃ change ∈ changesOf operations, change.Resets :=
      ⟨.deleteAll, List.mem_filterMap.mpr ⟨numbered, hmem, hitem ▸ rfl⟩, trivial⟩
    rw [store_of_carryOut hcarried, store_of_carryOut hcarried']
    exact Store.after_eq_of_resets hresets _ _

/-- A script that stores a rule, deletes all and stores another rule about the same: it leaves this
    one behind, whether it is replayed on two rules, on what it has left or on no rules at all. -/
theorem run_again_of_repeated_rule :
    let script := "select-target A\nstore-rule --aid A0 --device-app-id empty --nfc-never\n" ++
      "read-all\ndelete-all\nstore-rule --aid a0 --device-app-id empty --nfc-always\n"
    let rule : Rule := ⟨⟨.aid [0xa0], [], none⟩, { nfc := some .always }⟩
    let other : Rule := ⟨⟨.any, [], none⟩, { nfc := some .never }⟩
    let replay := (run (none : Option (Transport Unit Empty)) script).runFrom
    let after := (replay ⟨⟨[rule, other], by decide⟩, (), []⟩).2
    after.store.rules = [rule] ∧
      (∃ output, replay after = (.ok ⟨5, some ⟨"A", none⟩⟩, { after with output := output })) ∧
      after.store = (replay ⟨Store.empty, (), []⟩).2.store := by
  intro script rule other replay after
  have hparse : Script.parse script = .ok
      [⟨1, .selectTarget "A"⟩, ⟨2, .storeRule { rule with access := { nfc := some .never } }⟩,
        ⟨3, .readAll⟩, ⟨4, .deleteAll⟩, ⟨5, .storeRule rule⟩] := by decide +kernel
  have hrun : ∀ state, replay state = _ := fun state => runFrom_run_of_parse hparse state
  have hbefore : replay ⟨⟨[rule, other], by decide⟩, (), []⟩ =
      (.ok ⟨5, some ⟨"A", none⟩⟩, after) := by
    show _ = (_, (replay _).2)
    rw [hrun]
    rfl
  have hbare : replay ⟨Store.empty, (), []⟩ =
      (.ok ⟨5, some ⟨"A", none⟩⟩, (replay ⟨Store.empty, (), []⟩).2) := by
    rw [hrun]
    rfl
  have hdeletes : Script.Contains script .deleteAll :=
    Script.contains_of_mem_parse hparse
      (List.mem_cons_of_mem _ (List.mem_cons_of_mem _ (List.mem_cons_of_mem _ List.mem_cons_self)))
  have hencoded : ∀ stored, stored ∈ [rule, other] ∨ Script.Contains script (.storeRule stored) →
      ∃ octets, stored.encode = .ok octets := by
    rintro stored (hmem | hcontains)
    · simp only [List.mem_cons, List.not_mem_nil, or_false] at hmem
      rcases hmem with rfl | rfl <;> exact ⟨_, rfl⟩
    · obtain ⟨numbered, hmem, hitem⟩ := Script.exists_mem_of_contains hparse hcontains
      simp only [List.mem_cons, List.not_mem_nil, or_false] at hmem
      rcases hmem with rfl | rfl | rfl | rfl | rfl <;> cases hitem <;> exact ⟨_, rfl⟩
  have hafter : after.store.rules = [rule] := by
    simp only [after, hrun]
    rfl
  have hagain := (run_again script).1 ⟨⟨[rule, other], by decide⟩, (), []⟩ after
    ⟨5, some ⟨"A", none⟩⟩ hencoded hbefore after rfl
  have hsame := (run_again script).2 hdeletes ⟨⟨[rule, other], by decide⟩, (), []⟩
    ⟨Store.empty, (), []⟩ after _ _ _ hbefore hbare
  exact ⟨hafter, hagain, hsame⟩

end Replay

end AccessRules
