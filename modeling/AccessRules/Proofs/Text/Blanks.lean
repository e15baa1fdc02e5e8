import AccessRules.Proofs.Text.Pieces

/-!
# Blanks between words

Which blanks stand between two words, and how many, makes no difference to the words on the lines of
a text, and neither does what stands around them on a line.

1. **Words** — blanks in front of a text are no words (`words_blanks_append`), and words with blanks
   between them are apart (`words_append_gap`).

2. **Gaps** — a gap is blank and has no line feed in it.  A text with a gap in it is one piece from
   the last line feed in front of the gap to the first one behind it, so every gap does the same to
   the words of that line (`exists_words_around`): one may stand for another
   (`map_words_lines_gap`), and at either end of a text there may be one or none
   (`map_words_lines_gap_append`, `map_words_lines_append_gap`), such as a carriage return in front
   of a line feed (`map_words_lines_return`).
-/

namespace AccessRules.Text

/-! ## Words -/

/-- Blanks in front of a text are no words. -/
theorem words_blanks_append {blanks : List Char} (h : ∀ c ∈ blanks, isBlank c = true)
    (text : List Char) : words (String.ofList (blanks ++ text)) = words (String.ofList text) := by
  induction blanks with
  | nil => rfl
  | cons c blanks ih =>
    have hfirst := words_append_cons (h c List.mem_cons_self) [] (blanks ++ text)
    exact hfirst.trans (ih fun d hd => h d (List.mem_cons_of_mem _ hd))

/-- Words with blanks between them are apart. -/
theorem words_append_gap {gap : List Char} (h : ∀ c ∈ gap, isBlank c = true) (hsome : gap ≠ [])
    (front back : List Char) : words (String.ofList (front ++ (gap ++ back))) =
      words (String.ofList front) ++ words (String.ofList back) := by
  cases gap with
  | nil => exact absurd rfl hsome
  | cons c gap =>
    rw [List.cons_append, words_append_cons (h c List.mem_cons_self),
      words_blanks_append fun d hd => h d (List.mem_cons_of_mem _ hd)]

/-! ## Gaps -/

/-- `IsGap text` — the text is blank and has no line feed in it. -/
structure IsGap (text : String) : Prop where
  blank : ∀ c ∈ text.toList, isBlank c = true
  noFeed : '\n' ∉ text.toList

/-- A given text is seen to be a gap by going through it. -/
theorem isGap_of_all {text : String}
    (h : (text.toList.all fun c => isBlank c && c != '\n') = true) : IsGap text := by
  have hall : ∀ c ∈ text.toList, isBlank c = true ∧ c ≠ '\n' := by
    intro c hc
    have hgap := List.all_eq_true.mp h c hc
    rwa [Bool.and_eq_true, bne_iff_ne] at hgap
  exact ⟨fun c hc => (hall c hc).1, fun hfeed => (hall '\n' hfeed).2 rfl⟩

/-- Of a gap it makes no difference to the lines around it which one it is. -/
theorem exists_words_around (front back : String) : ∃ before last first after,
    (lines front).map words = before ++ [last] ∧ (lines back).map words = first :: after ∧
      ∀ gap, IsGap gap → gap ≠ "" →
        (lines (front ++ gap ++ back)).map words = before ++ (last ++ first) :: after := by
  obtain ⟨before, last, hfront⟩ : ∃ before last,
      split (· == '\n') front.toList = before ++ [last] :=
    ⟨_, _, (List.dropLast_concat_getLast (split_ne_nil _ _)).symm⟩
  obtain ⟨first, after, hback⟩ := List.exists_cons_of_ne_nil (split_ne_nil (· == '\n') back.toList)
  simp only [map_words_lines, hfront, hback, List.map_append, List.map_cons, List.map_nil]
  refine ⟨_, _, _, _, rfl, rfl, fun gap hgap hsome => ?_⟩
  have hpiece : split (· == '\n') gap.toList = [] ++ [gap.toList] :=
    split_eq_singleton (uncut hgap.noFeed)
  have hlist : (front ++ gap ++ back).toList = front.toList ++ (gap.toList ++ back.toList) := by
    simp
  rw [hlist, split_glue hfront (split_glue hpiece hback), List.map_append, List.map_cons,
    words_append_gap hgap.blank fun hnil => hsome (String.toList_inj.mp hnil)]

/-- The words on the lines in front of a line feed and behind it are those of the two texts. -/
theorem map_words_lines_congr {front front' back back' : String}
    (hfront : (lines front').map words = (lines front).map words)
    (hback : (lines back').map words = (lines back).map words) :
    (lines (front' ++ "\n" ++ back')).map words = (lines (front ++ "\n" ++ back)).map words := by
  rw [map_words_lines_append, map_words_lines_append, List.map_append, List.map_append, hfront,
    hback]

/-- One gap may stand for another one. -/
theorem map_words_lines_gap {gap other : String} (h : IsGap gap) (hsome : gap ≠ "")
    (h' : IsGap other) (hsome' : other ≠ "") (front back : String) :
    (lines (front ++ gap ++ back)).map words = (lines (front ++ other ++ back)).map words := by
  obtain ⟨before, last, first, after, -, -, haround⟩ := exists_words_around front back
  rw [haround gap h hsome, haround other h' hsome']

/-- In front of a text there may be a gap or none. -/
theorem map_words_lines_gap_append {gap : String} (h : IsGap gap) (text : String) :
    (lines (gap ++ text)).map words = (lines text).map words := by
  by_cases hsome : gap = ""
  · rw [hsome, String.empty_append]
  · obtain ⟨before, last, first, after, hnone, htext, haround⟩ := exists_words_around "" text
    -- the empty text has one line without words
    rcases List.append_eq_singleton_iff.mp hnone.symm with ⟨rfl, hlast⟩ | ⟨-, hnil⟩
    · have hwordless : last = [] := List.singleton_inj.mp hlast
      have hgap := haround gap h hsome
      rw [String.empty_append, hwordless] at hgap
      exact hgap.trans htext.symm
    · cases hnil

/-- Behind a text there may be a gap or none. -/
theorem map_words_lines_append_gap {gap : String} (h : IsGap gap) (text : String) :
    (lines (text ++ gap)).map words = (lines text).map words := by
  by_cases hsome : gap = ""
  · rw [hsome, String.append_empty]
  · obtain ⟨before, last, first, after, htext, hnone, haround⟩ := exists_words_around text ""
    have hwordless : first = [] ∧ after = [] :=
      ⟨(List.cons.inj hnone).1.symm, (List.cons.inj hnone).2.symm⟩
    have hgap := haround gap h hsome
    rw [String.append_empty, hwordless.1, hwordless.2, List.append_nil] at hgap
    exact hgap.trans htext.symm

/-- A carriage return in front of a line feed is a gap at the end of a line. -/
theorem map_words_lines_return (front back : String) :
    (lines (front ++ "\r\n" ++ back)).map words = (lines (front ++ "\n" ++ back)).map words := by
  have hreturn : IsGap "\r" := isGap_of_all (by decide)
  have hfeed : front ++ "\r\n" ++ back = front ++ "\r" ++ "\n" ++ back := by
    rw [show "\r\n" = "\r" ++ "\n" from rfl]
    simp only [String.append_assoc]
  rw [hfeed]
  exact map_words_lines_congr (map_words_lines_append_gap hreturn front) rfl

end AccessRules.Text
