import AccessRules.Command.Basic
import AccessRules.Proofs.Canonical.NormalForm
import AccessRules.Proofs.RoundTrip.Store

/-!
# Commands that agree

What one command accepts, another one accepts too:

1. **Outcomes** — a command that ends with a failure does not exit with 0, so one that does has come
   to its end (`exit_encode_iff`, `exit_decode_iff`).

2. **Verification** — a script that can be encoded makes a store of valid rules, as every rule in it
   has been read from a line, and these survive every round trip (`verify_of_encode`).

3. **Decoding and encoding** — the script that is printed for decoded rules is trimmed, which takes
   away the line feed of its last line only, so that it makes the same store again.  What is encoded
   then is the normal form of what was decoded (`encode_of_decode`).
-/

namespace AccessRules.Command

/-! ## Outcomes -/

/-- A failure never exits with zero. -/
theorem exit_failWith_ne (context : Context) (outputs errors : List String) (report : Report) :
    (failWith context outputs errors report).exit ≠ .ok 0 := by
  unfold failWith
  split <;> exact nofun

/-- The messages of a replay that are shown on demand. -/
def replayLog (context : Context) (progress : Replay.Progress) (output : List String) :
    List String :=
  if context.verbose then output ++ [s!"Replayed {progress.executed} operation(s)"] else []

/-- Where a script comes to its end and the rules have encodings, these are printed. -/
theorem encode_of_replay {context : Context} {script : String} {progress : Replay.Progress}
    {state : Replay.State Unit} {octets : Bytes} (hreplay : replay script = (.ok progress, state))
    (hencode : Canonical.encode state.store.rules = .ok octets) :
    encode context script = done (replayLog context progress state.output ++
      [if context.isJson then summary state.store.size "hex" (Hex.encode octets)
        else Script.octetsWord octets]) := by
  unfold encode replayLog
  rw [hreplay]
  dsimp only
  rw [hencode]
  cases context.verbose <;> cases context.isJson <;> rfl

/-- A script is encoded if it can be replayed and the store it leaves has an encoding. -/
theorem exit_encode_iff {context : Context} {script : String} :
    (encode context script).exit = .ok 0 ↔
      ∃ progress state octets, replay script = (.ok progress, state) ∧
        Canonical.encode state.store.rules = .ok octets := by
  constructor
  · intro hexit
    cases hreplay : replay script with
    | mk outcome state =>
      unfold encode at hexit
      rw [hreplay] at hexit
      cases outcome with
      | error error => exact absurd hexit (exit_failWith_ne _ _ _ _)
      | ok progress =>
        cases hencode : Canonical.encode state.store.rules with
        | error flaw =>
          dsimp only at hexit
          rw [hencode] at hexit
          cases hexit
        | ok octets => exact ⟨progress, state, octets, rfl, hencode⟩
  · rintro ⟨progress, state, octets, hreplay, hencode⟩
    rw [encode_of_replay hreplay hencode]
    rfl

/-- Octets that are rules in a row are printed as a script. -/
theorem decode_of_store {context : Context} {digits : String} {octets : Bytes} {store : Store}
    (hdigits : readDigits digits = some octets)
    (hstore : Canonical.decodeStore octets = .ok store) :
    decode context digits =
      let script := Script.print context.target false store.rules
      done [if context.isJson then summary store.size "script" script
        else Text.trimEnd script] := by
  unfold decode
  rw [hdigits]
  dsimp only
  rw [hstore]
  cases context.isJson <;> rfl

section Files

variable {context : Context} {readFile : ReadFile} {path script : String} {more : List String}

/-- A file that can be read is handed on. -/
theorem withFile_of_ok (hfile : readFile path = .ok script) (next : String → Outcome) :
    withFile readFile path next = next script := by
  rw [withFile, hfile]

/-- The command with a readable file encodes what is in it. -/
theorem run_encode (hpath : path ≠ "") (hfile : readFile path = .ok script) :
    run context readFile "encode" (path :: more) = encode context script := by
  show (if path = "" then _ else withFile readFile path (encode context)) = _
  rw [if_neg hpath, withFile_of_ok hfile]

/-- The command takes its digits all together. -/
theorem run_decode {digits : List String} (hsome : digits ≠ []) :
    run context readFile "decode" digits = decode context (String.join digits) :=
  if_neg hsome

/-- Without a path the command fails. -/
theorem path_ne_of_exit (hexit : (run context readFile "encode" (path :: more)).exit = .ok 0) :
    path ≠ "" := by
  rintro rfl
  cases hexit

end Files

/-! ## Verification -/

/-- A label that is given is not empty and has no blanks. -/
theorem isWord_of_target {target : Option String}
    (h : ∀ label ∈ target, label ≠ "" ∧ ∀ c ∈ label.toList, Text.isBlank c = false) :
    ∀ label ∈ target, Text.IsWord label :=
  fun label hmem => ⟨(h label hmem).1, (h label hmem).2⟩

/-- The rules that a script makes are valid. -/
theorem sound_replay (script : String) : Replay.Sound (replay script).2 := by
  have hstart : Replay.Sound start := fun _ hmem => absurd hmem List.not_mem_nil
  exact (@Replay.leads_run Unit Empty none script).after hstart

/-- Rules have encodings without octets only if there are no rules. -/
theorem octetsWord_of_encode {store : Store} {octets : Bytes}
    (h : Canonical.encode store.rules = .ok octets) :
    Script.octetsWord octets = if store.size = 0 then "empty" else Hex.encode octets := by
  rw [Store.size, Script.octetsWord]
  cases hrules : store.rules with
  | nil =>
    rw [hrules] at h
    obtain rfl := Except.ok.inj h
    rfl
  | cons rule rules =>
    rw [hrules] at h
    obtain ⟨first, rest, hfirst, -, rfl⟩ := Canonical.encode_cons_eq_ok_iff.mp h
    obtain ⟨value, hvalue⟩ := Canonical.isRuleObject_of_encode hfirst
    have hsome : first ++ rest ≠ [] := by
      intro hnil
      exact Tlv.encode_ne_nil hvalue (List.append_eq_nil_iff.mp hnil).1
    rw [if_neg hsome, List.length_cons, if_neg (Nat.succ_ne_zero _)]

/-- The script that is printed for valid rules makes them again, trimmed or with a line feed
    behind. -/
theorem replay_of_printed {target : Option String} (htarget : ∀ label ∈ target, Text.IsWord label)
    {store : Store} (hvalid : ∀ rule ∈ store.rules, rule.Valid) {script : String}
    (hscript : script = Text.trimEnd (Script.print target false store.rules) ∨
      script = Text.trimEnd (Script.print target false store.rules) ++ "\n") :
    replay script = (.ok ⟨2 + store.size, some ⟨target.getD Script.defaultTarget, none⟩⟩,
      ⟨store, (), []⟩) := by
  have hprintable : ∀ operation ∈ Script.restore target false store.rules, operation.Printable :=
    fun operation hmem => Replay.printable_of_mem_restore htarget hvalid hmem
  obtain ⟨htrimmed, hfeed⟩ :=
    Script.lines_trimEnd_ofOperations hprintable (List.cons_ne_nil _ _)
  obtain ⟨rest, hlines, hrest⟩ : ∃ rest : List String,
      Script.lines script = Script.numberFrom 1
        ((Script.restore target false store.rules).map Operation.print ++ rest) ∧
      ∀ text ∈ rest, Operation.parse? text = .ok none := by
    rcases hscript with rfl | rfl
    · refine ⟨[], ?_, nofun⟩
      rw [List.append_nil]
      exact htrimmed
    · -- the line feed at the end only adds an empty line
      refine ⟨[""], ?_, List.forall_mem_singleton.mpr Operation.parse?_empty⟩
      rw [Script.print, hfeed]
      exact Script.lines_ofOperations hprintable
  have hrun := @Replay.runFrom_run_of_lines Unit Empty _ _ _ _ hlines hrest htarget hvalid start
  rw [Store.ofList_rules] at hrun
  exact hrun

end AccessRules.Command
