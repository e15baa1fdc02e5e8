import AccessRules.Proofs.Script.Options
import AccessRules.Script.Basic

/-!
# Printed operations are read back

An operation is printed as one line of words.  If its label is a word and its rule is valid
(`Operation.Printable`), the line is read as this operation (`Operation.parse?_print`), and the text
of some operations has a line for each of them and an empty one (`Script.lines_ofOperations`).
A line ends in a word, so the line feed of the last line is all that trimming the text takes away
(`Script.lines_trimEnd_ofOperations`).  Every operation that is read is of this kind
(`Operation.printable_of_parse?`).
-/

namespace AccessRules

namespace Operation

/-- `operation.Printable` — what the operation carries can be written as words: its label is one,
    and its rule is valid. -/
def Printable : Operation → Prop
  | .selectTarget label => Text.IsWord label
  | .storeRule rule => rule.Valid
  | .deleteAll | .readAll => True

/-- The words that begin the line of an operation. -/
def firstWords : List String := ["select-target", "delete-all", Script.storeRuleWord, "read-all"]

theorem word_mem_firstWords (operation : Operation) : operation.word ∈ firstWords := by
  cases operation <;> simp [word, firstWords]

/-- The first word of an operation is a word. -/
theorem isWord_word (operation : Operation) : Text.IsWord operation.word := by
  have hall : ∀ first ∈ firstWords, first ≠ "" ∧
      (first.toList.all fun c => !Text.isBlank c) = true := by decide +kernel
  have hfirst := hall operation.word operation.word_mem_firstWords
  exact Text.isWord_of_all hfirst.1 hfirst.2

/-- An operation that can be printed is printed in words. -/
theorem isWord_of_mem_words {operation : Operation} (h : operation.Printable) {word : String}
    (hword : word ∈ operation.words) : Text.IsWord word := by
  cases operation with
  | selectTarget label =>
    simp only [words, List.mem_cons, List.not_mem_nil, or_false] at hword
    rcases hword with rfl | rfl
    · exact isWord_word (.selectTarget label)
    · exact h
  | deleteAll => exact List.mem_singleton.mp hword ▸ isWord_word .deleteAll
  | readAll => exact List.mem_singleton.mp hword ▸ isWord_word .readAll
  | storeRule rule =>
    rcases List.mem_cons.mp hword with rfl | hword
    · exact isWord_word (.storeRule rule)
    · exact Script.isWord_of_mem_ruleWords h hword

/-- The words of an operation are read as this operation. -/
theorem ofWords_words {operation : Operation} (h : operation.Printable) :
    ∃ arguments, operation.words = operation.word :: arguments ∧
      ofWords operation.word arguments = .ok operation := by
  cases operation with
  | selectTarget label => exact ⟨[label], rfl, rfl⟩
  | deleteAll => exact ⟨[], rfl, rfl⟩
  | readAll => exact ⟨[], rfl, rfl⟩
  | storeRule rule =>
    refine ⟨Script.ruleWords rule, rfl, ?_⟩
    show (Script.readRule (Script.ruleWords rule)).map storeRule = _
    rw [Script.readRule_ruleWords h]
    rfl

/-- No operation begins as a comment. -/
theorem head?_word (operation : Operation) : operation.word.toList.head? ≠ some '#' := by
  have hall : ∀ first ∈ firstWords, first.toList.head? ≠ some '#' := by decide
  exact hall operation.word operation.word_mem_firstWords

/-- A printed operation has the words that it was printed from. -/
theorem words_print {operation : Operation} (h : operation.Printable) :
    Text.words operation.print = operation.words :=
  Text.words_intercalate fun _ hword => isWord_of_mem_words h hword

/-- **A printed operation is read back.** -/
theorem parse?_print {operation : Operation} (h : operation.Printable) :
    parse? operation.print = .ok (some operation) := by
  obtain ⟨arguments, hwords, hread⟩ := ofWords_words h
  rw [parse?, words_print h, hwords]
  show (if _ then _ else _) = _
  rw [if_neg operation.head?_word, hread]
  rfl

/-- An operation without arguments is read as itself. -/
theorem eq_of_noArguments {operation read : Operation} {arguments : List String}
    (h : noArguments operation arguments = .ok read) : read = operation := by
  unfold noArguments at h
  split at h
  · exact (Except.ok.inj h).symm
  · cases h

/-- Whatever is read from words can be printed: a label is a word, and a rule that is read keeps to
the limits. -/
theorem printable_of_ofWords {first : String} {arguments : List String} {operation : Operation}
    (hwords : ∀ word ∈ arguments, Text.IsWord word)
    (h : ofWords first arguments = .ok operation) : operation.Printable := by
  unfold ofWords at h
  split at h
  · split at h
    · obtain rfl := Except.ok.inj h
      exact hwords _ List.mem_cons_self
    · cases h
  · split at h
    · rw [eq_of_noArguments h]
      trivial
    · split at h
      · rw [eq_of_noArguments h]
        trivial
      · split at h
        · obtain ⟨rule, hread, rfl⟩ := map_eq_ok_iff.mp h
          exact Script.valid_of_readRule hread
        · cases h

/-- An operation that is read can be printed. -/
theorem printable_of_parse? {line : String} {operation : Operation}
    (h : parse? line = .ok (some operation)) : operation.Printable := by
  have hwords : ∀ word ∈ Text.words line, Text.IsWord word := fun _ hmem =>
    Text.isWord_of_mem_words hmem
  unfold parse? at h
  split at h
  · cases h
  · rename_i first arguments hline
    rw [hline] at hwords
    split at h
    · cases h
    · obtain ⟨read, hread, hsome⟩ := map_eq_ok_iff.mp h
      obtain rfl := Option.some.inj hsome
      exact printable_of_ofWords (fun word hmem => hwords word (List.mem_cons_of_mem _ hmem)) hread

/-- A printed operation is one line. -/
theorem isLine_print {operation : Operation} (h : operation.Printable) :
    Text.IsLine operation.print :=
  Text.isLine_intercalate fun _ hword => isWord_of_mem_words h hword

/-- The line of an operation ends in a word. -/
theorem exists_print_eq_append {operation : Operation} (h : operation.Printable) :
    ∃ front last, operation.print = front ++ last ∧ Text.IsWord last := by
  have hsome : operation.words ≠ [] := by
    obtain ⟨arguments, hwords, -⟩ := ofWords_words h
    rw [hwords]
    exact List.cons_ne_nil _ _
  obtain ⟨last, hlast⟩ := Option.isSome_iff_exists.mp (List.getLast?_isSome.mpr hsome)
  obtain ⟨front, hfront⟩ := Text.exists_intercalate_eq_append " " hlast
  exact ⟨front, last, hfront, isWord_of_mem_words h (List.mem_of_getLast? hlast)⟩

/-- An empty line says nothing. -/
theorem parse?_empty : parse? "" = .ok none := rfl

end Operation

namespace Script

theorem ofOperations_eq_join (operations : List Operation) :
    ofOperations operations =
      String.join ((operations.map Operation.print).map fun line => line ++ "\n") := by
  rw [ofOperations, List.map_map]
  rfl

section Printable

variable {operations : List Operation} (h : ∀ operation ∈ operations, operation.Printable)

include h

theorem isLine_of_mem_print : ∀ line ∈ operations.map Operation.print, Text.IsLine line := by
  intro line hline
  obtain ⟨operation, hmem, rfl⟩ := List.mem_map.mp hline
  exact Operation.isLine_print (h operation hmem)

/-- The text of some operations has a line for each of them, and an empty one at the end. -/
theorem lines_ofOperations :
    lines (ofOperations operations) = numberFrom 1 (operations.map Operation.print ++ [""]) := by
  rw [lines, ofOperations_eq_join, Text.lines_join (isLine_of_mem_print h)]

/-- Trimmed, the text of some operations has just a line for each of them. -/
theorem lines_trimEnd_ofOperations (hsome : operations ≠ []) :
    lines (Text.trimEnd (ofOperations operations)) =
        numberFrom 1 (operations.map Operation.print) ∧
      Text.trimEnd (ofOperations operations) ++ "\n" = ofOperations operations := by
  have hlines : operations.map Operation.print ≠ [] := by
    rwa [ne_eq, List.map_eq_nil_iff]
  obtain ⟨last, hlast⟩ := Option.isSome_iff_exists.mp (List.getLast?_isSome.mpr hsome)
  obtain ⟨front, word, hprint, hword⟩ :=
    Operation.exists_print_eq_append (h last (List.mem_of_getLast? hlast))
  have hend : (operations.map Operation.print).getLast? = some (front ++ word) := by
    rw [List.getLast?_map, hlast, ← hprint]
    rfl
  rw [ofOperations_eq_join, Text.trimEnd_join hend hword, ← Text.join_eq_intercalate hlines, lines,
    Text.lines_intercalate hlines (isLine_of_mem_print h)]
  exact ⟨rfl, rfl⟩

end Printable

end Script

end AccessRules
