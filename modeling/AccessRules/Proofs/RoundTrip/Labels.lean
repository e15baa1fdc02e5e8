import AccessRules.Proofs.Replay.Batch
import AccessRules.Proofs.Replay.Restore
import AccessRules.Proofs.RoundTrip.Calls

/-!
# Labels in printed scripts

The label of the target is free text, and a script names it as it is given, on its first line.  Of a
line only the words count, and a line feed in the label ends the line:

1. **The line of a label** — has the words of the label behind the first one (`words_print_label`),
   and an operation is read from it exactly if the label has one word (`parse?_print_label`).

2. **Any label** — what is printed behind the label is read behind whatever is read from the label's
   own line, or lines (`parse_print_some`).

3. **The label itself** — is read, and with it just the operations that were printed, exactly if it
   is one word and nothing else (`parse_print_eq_ok_iff`).

4. **Round trips** — a script whose first line cannot be read does nothing, so a round trip with
   such a label leaves the store empty (`runFrom_run_of_first_flaw`).
-/

namespace AccessRules

namespace Script

/-! ## The line of a label -/

/-- The operations that restore some rules on a target that has been selected. -/
def rebuild (readBack : Bool) (rules : List Rule) : List Operation :=
  .deleteAll :: rules.map .storeRule ++ if readBack then [.readAll] else []

/-- What is read from a line that selects a target by a label. -/
def readLabel (label : String) : Except Flaw String :=
  match Text.words label with
  | [word] => .ok word
  | _ => .error (.field "select-target" .notOneLabel)

/-- The words of the line are its first word and those of the label. -/
theorem words_print_label (label : String) :
    Text.words (Operation.selectTarget label).print =
      (Operation.selectTarget label).word :: Text.words label := by
  have hprint : (Operation.selectTarget label).print =
      (Operation.selectTarget label).word ++ " " ++ label := by
    rw [Operation.print, Operation.words, String.intercalate_cons_cons,
      String.intercalate_singleton]
  rw [hprint, Text.words_append_blank (Operation.isWord_word _)]

/-- From the line of a label its word is read, if it has just one. -/
theorem parse?_print_label (label : String) :
    Operation.parse? (Operation.selectTarget label).print =
      (readLabel label).map fun word => some (.selectTarget word) := by
  rw [Operation.parse?, words_print_label, readLabel]
  show (if _ then _ else _) = _
  rw [if_neg (Operation.selectTarget label).head?_word]
  cases Text.words label with
  | nil => rfl
  | cons word more => cases more <;> rfl

/-! ## Any label -/

/-- Printed for a label, the script has the line of the label in front. -/
theorem print_some (label : String) (readBack : Bool) (rules : List Rule) :
    print (some label) readBack rules =
      (Operation.selectTarget label).print ++ "\n" ++ ofOperations (rebuild readBack rules) := by
  rw [print, ofOperations, restore, Option.getD_some, List.cons_append, List.map_cons,
    String.join_cons]
  rfl

section Valid

variable {rules : List Rule} (h : ∀ rule ∈ rules, rule.Valid)

include h

/-- Each of the operations behind the label can be printed. -/
theorem printable_of_mem_rebuild {readBack : Bool} {operation : Operation}
    (hmem : operation ∈ rebuild readBack rules) : operation.Printable :=
  @Replay.printable_of_mem_restore none readBack rules nofun h operation
    (List.mem_cons_of_mem _ hmem)

/-- Whatever the label is, what is printed behind it is read behind it. -/
theorem parse_print_some (label : String) (readBack : Bool) :
    parse (print (some label) readBack rules) =
      (parse (Operation.selectTarget label).print).map
        (· ++ numberFrom (1 + (Text.lines (Operation.selectTarget label).print).length)
          (rebuild readBack rules)) := by
  rw [print_some]
  exact parse_append_ofOperations _ fun operation hmem => printable_of_mem_rebuild h hmem

/-- A label without line feeds is read as its word, if it has just one. -/
theorem parse_print_of_no_feed {label : String} (hfeed : '\n' ∉ label.toList) (readBack : Bool) :
    parse (print (some label) readBack rules) =
      match readLabel label with
      | .ok word => .ok (numberFrom 1 (restore (some word) readBack rules))
      | .error flaw => .error ⟨1, flaw⟩ := by
  -- no line feed comes from the word in front, the space or the label
  have hline : Text.lines (Operation.selectTarget label).print =
      [(Operation.selectTarget label).print] := by
    refine Text.lines_eq_singleton fun hprint => ?_
    rcases Text.mem_intercalate hprint with hspace | ⟨word, hword, hmem⟩
    · exact absurd hspace (by decide)
    · simp only [Operation.words, List.mem_cons, List.not_mem_nil, or_false] at hword
      rcases hword with hfirst | hlabel
      · have hsolid := (Operation.isWord_word _).solid '\n' (hfirst ▸ hmem)
        exact absurd hsolid (by decide)
      · exact hfeed (hlabel ▸ hmem)
  rw [parse_print_some h, hline, parse, lines, hline]
  have hparse := parse?_print_label label
  cases hlabel : readLabel label with
  | error flaw =>
    rw [hlabel] at hparse
    rw [numberFrom, parseLines_cons_of_error hparse]
    rfl
  | ok word =>
    rw [hlabel] at hparse
    rw [numberFrom, parseLines_cons_of_some hparse]
    rfl

/-! ## The label itself -/

/-- What is printed is read exactly if the label is a word. -/
theorem parse_print_eq_ok_iff (target : Option String) (readBack : Bool) :
    parse (print target readBack rules) = .ok (numberFrom 1 (restore target readBack rules)) ↔
      ∀ label ∈ target, Text.IsWord label := by
  constructor
  · rintro hparse label rfl
    have hmem : ⟨1, .selectTarget label⟩ ∈
        readable (lines (print (some label) readBack rules)) := by
      rw [readable_of_parseLines hparse]
      exact List.mem_cons_self
    obtain ⟨text, -, hline⟩ := mem_readable hmem
    exact Operation.printable_of_parse? hline
  · intro htarget
    exact parse_ofOperations fun operation hmem => Replay.printable_of_mem_restore htarget h hmem

end Valid

end Script

/-! ## Round trips -/

/-- A script does nothing if its first line cannot be read. -/
theorem Replay.runFrom_run_of_first_flaw {σ ε : Type} {transport : Option (Transport σ ε)}
    {script : String} {flaw : Script.Flaw} (h : Script.parse script = .error ⟨1, flaw⟩)
    (state : State σ) :
    (run transport script).runFrom state = (.error ⟨1, .line flaw⟩, state) := by
  have hreadable : Script.readable (Script.lines script) = [] :=
    (Except.ok.inj (Script.parse_error_cases h).2.2).symm
  rw [run, runFrom_lines_eq, hreadable, show Script.parseLines (Script.lines script) = _ from h]
  rfl

namespace RoundTrip

variable {σ ε : Type}

/-- A round trip fails if the first line of its script cannot be read, and leaves the store
    empty. -/
theorem runFrom_run_of_first_flaw {options : Options σ ε} {state : State σ}
    (hover : state.position.isOver = true) {baseline : Bytes}
    (hencode : Canonical.encode state.work.store.rules = .ok baseline) {flaw : Script.Flaw}
    (hparse : Script.parse (Script.print options.target false state.work.store.rules) =
      .error ⟨1, flaw⟩) :
    (run options).runFrom state =
      (.error (.script ⟨1, .line flaw⟩),
        ⟨.after .failed ⟨Script.print options.target false state.work.store.rules, baseline⟩,
          { state.work with store := Store.empty }⟩) := by
  have hexport := runFrom_exportStore options hover hencode
  generalize Script.print options.target false state.work.store.rules = script at *
  -- the store has been emptied when the script turns out to be unreadable
  have hclear : (clear : Trip σ ε Unit).runFrom ⟨.after .exported ⟨script, baseline⟩, state.work⟩ =
      (.ok (), ⟨.after .cleared ⟨script, baseline⟩, { state.work with store := Store.empty }⟩) :=
    rfl
  have hrestore := @runFrom_restore_of_error σ ε options ⟨script, baseline⟩
    { state.work with store := Store.empty } _ _ (Replay.runFrom_run_of_first_flaw hparse _)
  rw [run, Step.runFrom_bind_of_ok hexport, Step.runFrom_bind_of_ok hclear, Step.runFrom_bind,
    hrestore]

/-- **What a label makes of a script.**  The script that is printed for a label is read as the
    operations that were printed exactly if the label is a word.  Whatever the label is, the
    operations behind it are read behind those that its own text makes.  Without line feeds it is
    read as its word, if it has just one; otherwise the script cannot be read, and a round trip
    fails after it has emptied the store. -/
theorem script_of_label (store : Store) (hmade : ∀ rule ∈ store.rules, rule.Made)
    (readBack : Bool) :
    (∀ target : Option String,
      Script.parse (Script.print target readBack store.rules) =
          .ok (Script.numberFrom 1 (Script.restore target readBack store.rules)) ↔
        ∀ label ∈ target, label ≠ "" ∧ ∀ c ∈ label.toList, Text.isBlank c = false) ∧
    ∀ label : String,
      let script := Script.print (some label) readBack store.rules
      let line := (Operation.selectTarget label).print
      Script.parse script =
        (Script.parse line).map
          (· ++ Script.numberFrom (1 + (Text.lines line).length)
            (Script.rebuild readBack store.rules)) ∧
      ('\n' ∉ label.toList →
        match Script.readLabel label with
        | .ok word =>
          Script.parse script =
            .ok (Script.numberFrom 1 (Script.restore (some word) readBack store.rules))
        | .error flaw =>
          Script.parse script = .error ⟨1, flaw⟩ ∧
          ∀ (options : Options σ ε) (state : State σ) (baseline : Bytes),
            options.target = some label → state.position.isOver = true →
            state.work.store = store → Canonical.encode store.rules = .ok baseline →
            (run options).runFrom state =
              (.error (.script ⟨1, .line flaw⟩),
                ⟨.after .failed ⟨Script.print (some label) false store.rules, baseline⟩,
                  { state.work with store := Store.empty }⟩)) := by
  have hvalid : ∀ rule ∈ store.rules, rule.Valid := fun rule hmem =>
    Rule.made_iff_valid.mp (hmade rule hmem)
  constructor
  · intro target
    rw [Script.parse_print_eq_ok_iff hvalid]
    exact forall₂_congr fun label _ => ⟨fun h => ⟨h.nonempty, h.solid⟩, fun h => ⟨h.1, h.2⟩⟩
  · intro label script line
    refine ⟨Script.parse_print_some hvalid label readBack, fun hfeed => ?_⟩
    have hparse := Script.parse_print_of_no_feed hvalid hfeed
    cases hlabel : Script.readLabel label with
    | ok word =>
      have hread := hparse readBack
      rwa [hlabel] at hread
    | error flaw =>
      simp only [hlabel] at hparse
      refine ⟨hparse readBack, fun options state baseline htarget hover hstore hencode => ?_⟩
      -- the round trip prints without reading back, whatever is asked for here
      subst hstore
      have hfails := hparse false
      rw [← htarget] at hfails ⊢
      exact runFrom_run_of_first_flaw hover hencode hfails

/-- A label between blanks is read without them, and a line feed in a label begins a line of its
    own. -/
theorem script_of_label_of_blanks :
    let rule : Rule := ⟨⟨.any, [], none⟩, { nfc := some .always }⟩
    let read := fun label => Script.parse (Script.print (some label) true [rule])
    read " A\t" = .ok (Script.numberFrom 1 (Script.restore (some "A") true [rule])) ∧
      read " A\t" ≠ .ok (Script.numberFrom 1 (Script.restore (some " A\t") true [rule])) ∧
      read "A\nread-all" = .ok (Script.numberFrom 1
        (.selectTarget "A" :: .readAll :: Script.rebuild true [rule])) := by
  intro rule read
  have hmade : ∀ other ∈ (⟨[rule], List.pairwise_singleton _ _⟩ : Store).rules, other.Made :=
    List.forall_mem_singleton.mpr (.created (show Rule.create rule.asInput = .ok rule from rfl))
  obtain ⟨hkept, hlabel⟩ := @script_of_label Unit Empty _ hmade true
  have hword : Script.readLabel " A\t" = .ok "A" := by decide +kernel
  have hlines : Text.lines (Operation.selectTarget "A\nread-all").print =
      ["select-target A", "read-all"] := by decide +kernel
  have hparse : Script.parse (Operation.selectTarget "A\nread-all").print =
      .ok [⟨1, .selectTarget "A"⟩, ⟨2, .readAll⟩] := by decide +kernel
  refine ⟨?_, fun hread => ?_, ?_⟩
  · have hread := (hlabel " A\t").2 (by decide)
    rwa [hword] at hread
  · have hsolid := ((hkept (some " A\t")).mp hread _ rfl).2 ' ' (by decide +kernel)
    exact absurd hsolid (by decide)
  · have hread := (hlabel "A\nread-all").1
    rw [hlines, hparse] at hread
    exact hread

/-- Two words are no label: the script that is printed with them cannot be read, and the rule that
    the round trip has deleted does not come back.  And a label may hold an operation. -/
theorem script_of_two_words :
    let rule : Rule := ⟨⟨.any, [], none⟩, { nfc := some .always }⟩
    let store : Store := ⟨[rule], List.pairwise_singleton _ _⟩
    let flaw : Script.Flaw := .field "select-target" .notOneLabel
    let options : Options Unit Empty := { target := some "two words" }
    Script.parse (Script.print (some "two words") false [rule]) = .error ⟨1, flaw⟩ ∧
      (∃ snapshot, (run options).runFrom { work := ⟨store, (), []⟩ } =
        (.error (.script ⟨1, .line flaw⟩), ⟨.after .failed snapshot, ⟨Store.empty, (), []⟩⟩)) ∧
      Script.parse (Script.print (some "A\nread-all") false [rule]) =
        .ok [⟨1, .selectTarget "A"⟩, ⟨2, .readAll⟩, ⟨3, .deleteAll⟩, ⟨4, .storeRule rule⟩] := by
  intro rule store flaw options
  have hparse : Script.parse (Script.print (some "two words") false [rule]) = .error ⟨1, flaw⟩ := by
    decide +kernel
  have hfails := @runFrom_run_of_first_flaw Unit Empty options { work := ⟨store, (), []⟩ } rfl _
    rfl flaw hparse
  exact ⟨hparse, ⟨_, hfails⟩, by decide +kernel⟩

end RoundTrip

end AccessRules
