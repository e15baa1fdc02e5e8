import AccessRules.Proofs.Replay.Lines
import AccessRules.Proofs.Script.Layout

/-!
# Replaying a script in another layout

A replay goes through a script line by line, and of each line only the words are read.  So it does
the same with the lines of another layout, by induction on how they are aligned
(`runFrom_lines_of_aligned`): lines that say nothing change nothing, and the others do what they do
in the script itself, on every transport and without one.  Only the number of the line that fails is
another.
-/

namespace AccessRules.Replay

variable {σ ε : Type} {transport : Option (Transport σ ε)}

/-- Lines of the same words have the same effect. -/
theorem line_congr {text text' : String} (h : Text.words text' = Text.words text)
    (progress : Progress) : line transport progress text' = line transport progress text := by
  rw [line, line, Script.parse?_congr h]

/-- Aligned lines do the same, and fail for the same reason. -/
theorem runFrom_lines_of_aligned {moved : Nat → Nat} {ls ls' : List (Script.Numbered String)}
    (h : Script.Aligned moved ls ls') (progress : Progress) (state : State σ) :
    (lines transport progress ls').runFrom state =
      (((lines transport progress ls).runFrom state).1.mapError (Script.Numbered.renumber moved),
        ((lines transport progress ls).runFrom state).2) := by
  induction h generalizing progress state with
  | nil => rfl
  | @same number text text' ls ls' words rest ih =>
    have hsame := @line_congr _ _ transport _ _ words progress
    cases hrun : (line transport progress text).runFrom state with
    | mk outcome after =>
      -- the same step on both sides, under two numbers
      have hrun' := hrun
      rw [← hsame] at hrun'
      cases outcome with
      | error reason =>
        rw [runFrom_lines_of_error hrun, runFrom_lines_of_error hrun']
        rfl
      | ok next =>
        rw [runFrom_lines_of_ok hrun, runFrom_lines_of_ok hrun']
        exact ih next after
  | silent none rest ih =>
    -- the inserted line is passed over
    rw [runFrom_lines_of_ok (runFrom_line_of_none none)]
    exact ih progress state

/-- **A new layout of a script** has the lines of the script in their order, and beside them lines
    that say nothing.  It is read as the same operations, or has the same flaw, under the new
    numbers of the lines; and a replay of it comes to the same, from any state and on any transport
    or none: the same outcome, but for the number of the line that fails, and the same store,
    transport and messages. -/
theorem run_relaid {text text' : String} {moved : Nat → Nat}
    (h : Script.Relaid text text' moved) :
    StrictMono moved ∧
      (∀ number line, ⟨number, line⟩ ∈ Script.lines text →
        ∃ line', ⟨moved number, line'⟩ ∈ Script.lines text' ∧
          Text.words line' = Text.words line) ∧
      (∀ number' line', ⟨number', line'⟩ ∈ Script.lines text' →
        Operation.parse? line' = .ok none ∨ ∃ number line, number' = moved number ∧
          ⟨number, line⟩ ∈ Script.lines text ∧ Text.words line' = Text.words line) ∧
      Script.parse text' =
        ((Script.parse text).map (List.map (Script.Numbered.renumber moved))).mapError
          (Script.Numbered.renumber moved) ∧
      ∀ {σ ε : Type} (transport : Option (Transport σ ε)) (state : State σ),
        (run transport text').runFrom state =
          (((run transport text).runFrom state).1.mapError (Script.Numbered.renumber moved),
            ((run transport text).runFrom state).2) := by
  have haligned := h.aligned
  refine ⟨h.strictMono, fun _ _ hmem => haligned.exists_line hmem,
    fun _ _ hmem => haligned.line_cases hmem, Script.parseLines_of_aligned haligned, ?_⟩
  intro σ ε transport state
  exact runFrom_lines_of_aligned haligned {} state

/-- A comment in front, other blanks between words, a carriage return, and a byte order mark at the
    end. -/
theorem run_relaid_of_comment :
    let text := "select-target A\nread-all"
    let text' := "\t# all rules\nselect-target\u00a0\u3000A\r\nread-all\ufeff"
    Script.parse text = .ok [⟨1, .selectTarget "A"⟩, ⟨2, .readAll⟩] ∧
      Script.parse text' = .ok [⟨2, .selectTarget "A"⟩, ⟨3, .readAll⟩] ∧
      (run (none : Option (Transport Unit Empty)) text').runFrom ⟨Store.empty, (), []⟩ =
        (.ok ⟨2, some ⟨"A", none⟩⟩, ⟨Store.empty, (), ["# empty"]⟩) := by
  intro text text'
  have hcomment : Script.Silent "\t# all rules" :=
    @Script.Silent.comment "\t" " all rules" (Text.isGap_of_all (by decide)) (by decide)
  have hspace : Text.IsGap " " := Text.isGap_of_all (by decide)
  have hwide : Text.IsGap "\u00a0\u3000" := Text.isGap_of_all (by decide)
  have hmark : Text.IsGap "\ufeff" := Text.isGap_of_all (by decide)
  have hrelaid : Script.Relaid text text' (Script.behind 0) := by
    -- four edits, each of the text that the one before has left
    have hinsert := Script.Edit.insertFirst hcomment text
    have hrespace := Script.Edit.respace "\t# all rules\nselect-target" "A\nread-all" hspace
      (by decide) hwide (by decide)
    have hreturn := Script.Edit.carriageReturn "\t# all rules\nselect-target\u00a0\u3000A"
      "read-all"
    have hpad := @Script.Edit.pad "\t# all rules\nselect-target\u00a0\u3000A\r\nread-all" "" _
      hmark (.inr (.inl rfl))
    exact (((Script.Relaid.refl text).step hinsert).step hrespace).step hreturn |>.step hpad
  obtain ⟨-, -, -, hparse, hrun⟩ := run_relaid hrelaid
  have hlines : Script.lines text = [⟨1, "select-target A"⟩, ⟨2, "read-all"⟩] := by decide +kernel
  have hselect : Operation.parse? "select-target A" = .ok (some (.selectTarget "A")) := by
    decide +kernel
  have hread : Operation.parse? "read-all" = .ok (some .readAll) := by decide +kernel
  have hempty : snapshotMessage [] = "# empty" := by decide
  have hmade : (run (none : Option (Transport Unit Empty)) text).runFrom ⟨Store.empty, (), []⟩ =
      (.ok ⟨2, some ⟨"A", none⟩⟩, ⟨Store.empty, (), [snapshotMessage []]⟩) := by
    rw [run, hlines, runFrom_lines_of_ok (runFrom_line_of_ok hselect rfl),
      runFrom_lines_of_ok (runFrom_line_of_ok hread rfl)]
    rfl
  have hparsed : Script.parse text = .ok [⟨1, .selectTarget "A"⟩, ⟨2, .readAll⟩] := by
    decide +kernel
  rw [hparsed] at hparse
  refine ⟨hparsed, hparse, (hrun none _).trans ?_⟩
  rw [hmade, hempty]
  rfl

end AccessRules.Replay
