import AccessRules.Text.Pieces

/-!
# Words and lines put together and taken apart

Cutting a text undoes joining its pieces, as long as no piece holds what is cut at:

1. **One cut** — texts that are put together are cut as each of them is by itself, with the last
   piece of the first and the first piece of the second as one (`split_glue`).  So in front of a cut
   and behind it a text has the pieces that it has without it (`split_append`).  No piece holds what
   is cut at (`cuts_eq_false_of_mem_split`).

2. **Words** — the words of a text have no blanks (`isWord_of_mem_words`), and words with single
   spaces between them are these words again (`words_intercalate`).  Texts that are put together
   with nothing but words and spaces have no other blanks (`IsPlain.append`, `IsPlain.intercalate`).

3. **Lines** — lines that each end in a line feed are these lines again, and one empty line behind
   the last line feed (`lines_join`).  Without the last line feed they are just these lines
   (`lines_intercalate`).  Any two texts have the same words line by line with a line feed between
   them as apart from each other (`map_words_lines_append`).

4. **Trimming** — what stands behind the last word of a text is cut off (`trimEnd_append`), so the
   last line feed of such lines is all that is (`trimEnd_join`).
-/

namespace AccessRules.Text

/-! ## One cut -/

theorem split_cons (cuts : Char → Bool) (c : Char) (text : List Char) :
    split cuts (c :: text) =
      if cuts c then [] :: split cuts text else ontoFirst c (split cuts text) := rfl

/-- A text that is not cut is its only piece. -/
theorem split_eq_singleton {cuts : Char → Bool} {piece : List Char}
    (h : ∀ c ∈ piece, cuts c = false) : split cuts piece = [piece] := by
  induction piece with
  | nil => rfl
  | cons c piece ih =>
    have hc : ¬ cuts c = true := by
      rw [h c List.mem_cons_self]
      exact Bool.false_ne_true
    rw [split_cons, if_neg hc, ih fun d hd => h d (List.mem_cons_of_mem _ hd)]
    rfl

/-- The last piece of a text and the first one of the text behind it are one piece. -/
theorem split_glue {cuts : Char → Bool} {front back last first : List Char}
    {before after : List (List Char)} (hfront : split cuts front = before ++ [last])
    (hback : split cuts back = first :: after) :
    split cuts (front ++ back) = before ++ (last ++ first) :: after := by
  induction front generalizing before last with
  | nil =>
    rcases List.append_eq_singleton_iff.mp hfront.symm with ⟨rfl, hlast⟩ | ⟨-, hnone⟩
    · obtain rfl := List.singleton_inj.mp hlast
      exact hback
    · cases hnone
  | cons c front ih =>
    rw [split_cons] at hfront
    rw [List.cons_append, split_cons]
    -- a separator in front closes a piece; any other character goes to the first one
    by_cases hc : cuts c = true
    · rw [if_pos hc] at hfront ⊢
      rcases List.cons_eq_append_iff.mp hfront with ⟨-, hlast⟩ | ⟨pieces, rfl, hpieces⟩
      · exact absurd (List.cons.inj hlast).2.symm (split_ne_nil cuts front)
      · rw [ih hpieces, List.cons_append]
    · rw [if_neg hc] at hfront ⊢
      obtain ⟨piece, pieces, hsplit⟩ := List.exists_cons_of_ne_nil (split_ne_nil cuts front)
      rw [hsplit] at hfront
      -- the first piece of the front may be its last one too, which then goes on in the back
      rcases List.cons_eq_append_iff.mp hfront with ⟨rfl, hlast⟩ | ⟨others, rfl, rfl⟩
      · obtain ⟨rfl, rfl⟩ := List.cons.inj hlast
        have hcut : split cuts front = [] ++ [piece] := hsplit
        rw [ih hcut]
        rfl
      · have hcut : split cuts front = (piece :: others) ++ [last] := hsplit
        rw [ih hcut]
        rfl

/-- A text is cut at what it can be cut at, and in front of that and behind it as without it. -/
theorem split_append {cuts : Char → Bool} {separator : Char} (hcut : cuts separator = true)
    (front back : List Char) :
    split cuts (front ++ separator :: back) = split cuts front ++ split cuts back := by
  have hback : split cuts (separator :: back) = [] :: split cuts back := by
    rw [split_cons, if_pos hcut]
  have hfront := (List.dropLast_concat_getLast (split_ne_nil cuts front)).symm
  rw [split_glue hfront hback, List.append_nil, List.append_cons, ← hfront]

/-- A text is cut where it can be cut first, and then behind that. -/
theorem split_append_cons {cuts : Char → Bool} {piece : List Char} {separator : Char}
    (hpiece : ∀ c ∈ piece, cuts c = false) (hcut : cuts separator = true) (text : List Char) :
    split cuts (piece ++ separator :: text) = piece :: split cuts text := by
  rw [split_append hcut, split_eq_singleton hpiece, List.singleton_append]

/-- No piece holds what is cut at. -/
theorem cuts_eq_false_of_mem_split {cuts : Char → Bool} {text piece : List Char}
    (hpiece : piece ∈ split cuts text) {c : Char} (hc : c ∈ piece) : cuts c = false := by
  induction text generalizing piece with
  | nil =>
    obtain rfl := List.mem_singleton.mp hpiece
    cases hc
  | cons d text ih =>
    rw [split_cons] at hpiece
    by_cases hd : cuts d = true
    · rw [if_pos hd] at hpiece
      rcases List.mem_cons.mp hpiece with rfl | hmem
      · cases hc
      · exact ih hmem hc
    · rw [if_neg hd] at hpiece
      cases hsplit : split cuts text with
      | nil => exact absurd hsplit (split_ne_nil cuts text)
      | cons first pieces =>
        rw [hsplit] at ih hpiece
        -- only the first piece has the new character in it, which does not cut
        rcases List.mem_cons.mp hpiece with rfl | hmem
        · rcases List.mem_cons.mp hc with rfl | hmem
          · exact eq_false_of_ne_true hd
          · exact ih List.mem_cons_self hmem
        · exact ih (List.mem_cons_of_mem _ hmem) hc

/-! ## Words -/

/-- The visible characters of ASCII are not blank. -/
theorem isBlank_of_visible {c : Char} (h : 0x21 ≤ c.toNat ∧ c.toNat ≤ 0x7e) :
    isBlank c = false := by
  simp only [isBlank, Bool.or_eq_false_iff, Bool.and_eq_false_iff, decide_eq_false_iff_not,
    beq_eq_false_iff_ne]
  omega

/-- `IsWord word` — the text is not empty and has no blank in it. -/
structure IsWord (word : String) : Prop where
  nonempty : word ≠ ""
  solid : ∀ c ∈ word.toList, isBlank c = false

/-- A given text is seen to be a word by going through it. -/
theorem isWord_of_all {word : String} (hsome : word ≠ "")
    (hsolid : (word.toList.all fun c => !isBlank c) = true) : IsWord word := by
  refine ⟨hsome, fun c hc => ?_⟩
  have hblank := List.all_eq_true.mp hsolid c hc
  rwa [Bool.not_eq_true'] at hblank

theorem IsWord.isEmpty_toList {word : String} (h : IsWord word) : word.toList.isEmpty = false := by
  rw [List.isEmpty_eq_false_iff]
  exact fun hnil => h.nonempty (String.toList_inj.mp hnil)

/-- The words of a text are words. -/
theorem isWord_of_mem_words {text word : String} (h : word ∈ words text) : IsWord word := by
  obtain ⟨piece, hpiece, rfl⟩ := List.mem_map.mp h
  obtain ⟨hmem, hsome⟩ := List.mem_filter.mp hpiece
  constructor
  · intro hempty
    rw [String.ofList_eq_empty_iff.mp hempty] at hsome
    cases hsome
  · rw [String.toList_ofList]
    exact fun c hc => cuts_eq_false_of_mem_split hmem hc

/-- A word is its own only word. -/
theorem words_eq_singleton {word : String} (h : IsWord word) : words word = [word] := by
  rw [words, split_eq_singleton h.solid, List.filter_cons, h.isEmpty_toList]
  show [String.ofList word.toList] = [word]
  rw [String.ofList_toList]

/-- Words with a blank between them are apart. -/
theorem words_append_cons {c : Char} (hc : isBlank c = true) (front back : List Char) :
    words (String.ofList (front ++ c :: back)) =
      words (String.ofList front) ++ words (String.ofList back) := by
  simp only [words, String.toList_ofList]
  rw [split_append hc, List.filter_append, List.map_append]

/-- A word and a space in front of a text are the first word. -/
theorem words_append_blank {word : String} (h : IsWord word) (text : String) :
    words (word ++ " " ++ text) = word :: words text := by
  have htext : word ++ " " ++ text = String.ofList (word.toList ++ ' ' :: text.toList) := by
    rw [← String.toList_inj]
    simp
  rw [htext, words_append_cons (by decide), String.ofList_toList, String.ofList_toList,
    words_eq_singleton h, List.singleton_append]

/-- Words with single spaces between them are these words. -/
theorem words_intercalate {ws : List String} (h : ∀ word ∈ ws, IsWord word) :
    words (" ".intercalate ws) = ws := by
  induction ws with
  | nil => rfl
  | cons word ws ih =>
    have hword := h word List.mem_cons_self
    have hrest := ih fun other hmem => h other (List.mem_cons_of_mem _ hmem)
    cases ws with
    | nil => exact words_eq_singleton hword
    | cons next ws => rw [String.intercalate_cons_cons, words_append_blank hword, hrest]

/-- What stands in an intercalation stands in one of the texts or in the separator. -/
theorem mem_intercalate {separator : String} {ls : List String} {c : Char}
    (h : c ∈ (separator.intercalate ls).toList) :
    c ∈ separator.toList ∨ ∃ line ∈ ls, c ∈ line.toList := by
  induction ls with
  | nil => cases h
  | cons line ls ih =>
    cases ls with
    | nil => exact .inr ⟨line, List.mem_cons_self, h⟩
    | cons next ls =>
      rw [String.intercalate_cons_cons, String.toList_append, String.toList_append,
        List.mem_append, List.mem_append] at h
      rcases h with (hline | hseparator) | hrest
      · exact .inr ⟨line, List.mem_cons_self, hline⟩
      · exact .inl hseparator
      · rcases ih hrest with hseparator | ⟨other, hmem, hc⟩
        · exact .inl hseparator
        · exact .inr ⟨other, List.mem_cons_of_mem _ hmem, hc⟩

/-- `IsPlain text` — the text has no blanks other than spaces in it. -/
def IsPlain (text : String) : Prop := ∀ c ∈ text.toList, c = ' ' ∨ isBlank c = false

/-- A given text is seen to be plain by going through it. -/
theorem isPlain_of_all {text : String}
    (h : (text.toList.all fun c => c == ' ' || !isBlank c) = true) : IsPlain text := by
  intro c hc
  have hplain := List.all_eq_true.mp h c hc
  rwa [Bool.or_eq_true, beq_iff_eq, Bool.not_eq_true'] at hplain

theorem IsWord.isPlain {word : String} (h : IsWord word) : IsPlain word :=
  fun c hc => .inr (h.solid c hc)

/-- Plain texts put together are plain. -/
theorem IsPlain.append {front back : String} (h : IsPlain front) (h' : IsPlain back) :
    IsPlain (front ++ back) := by
  intro c hc
  rw [String.toList_append, List.mem_append] at hc
  rcases hc with hfront | hback
  · exact h c hfront
  · exact h' c hback

theorem IsPlain.intercalate {separator : String} {ls : List String} (h : IsPlain separator)
    (hls : ∀ line ∈ ls, IsPlain line) : IsPlain (separator.intercalate ls) := by
  intro c hc
  rcases mem_intercalate hc with hseparator | ⟨line, hmem, hline⟩
  · exact h c hseparator
  · exact hls line hmem c hline

/-! ## Lines -/

/-- `IsLine line` — the text has no line feed in it and no carriage return at its end. -/
structure IsLine (line : String) : Prop where
  noFeed : '\n' ∉ line.toList
  noReturn : line.toList.getLast? ≠ some '\r'

/-- A text without line feeds is not cut into lines. -/
theorem uncut {text : String} (h : '\n' ∉ text.toList) :
    ∀ c ∈ text.toList, (c == '\n') = false := by
  intro c hc
  rw [beq_eq_false_iff_ne]
  exact fun heq => h (heq ▸ hc)

/-- Line feeds and carriage returns are blanks other than spaces. -/
theorem IsPlain.isLine {text : String} (h : IsPlain text) : IsLine text := by
  constructor
  · intro hfeed
    exact absurd (h '\n' hfeed) (by decide)
  · intro hreturn
    exact absurd (h '\r' (List.mem_of_getLast? hreturn)) (by decide)

/-- Words with single spaces between them are one line. -/
theorem isLine_intercalate {ws : List String} (h : ∀ word ∈ ws, IsWord word) :
    IsLine (" ".intercalate ws) := by
  have hspace : IsPlain " " := isPlain_of_all (by decide)
  exact (hspace.intercalate fun word hmem => (h word hmem).isPlain).isLine

/-- A line and a line feed in front of a text are the first line. -/
theorem lines_append_feed {line : String} (h : IsLine line) (text : String) :
    lines (line ++ "\n" ++ text) = line :: lines text := by
  have hlist : (line ++ "\n" ++ text).toList = line.toList ++ '\n' :: text.toList := by simp
  -- something stands behind the line feed, if only an empty piece, so the line is not the last
  have hsome : split (· == '\n') text.toList ≠ [] := split_ne_nil _ _
  have hkept : withoutReturn line.toList = line.toList := if_neg h.noReturn
  simp only [lines]
  rw [hlist, split_append_cons (uncut h.noFeed) (beq_self_eq_true '\n')]
  cases hpieces : split (· == '\n') text.toList with
  | nil => exact absurd hpieces hsome
  | cons piece pieces =>
    rw [List.dropLast_cons_cons, List.getLast?_cons_cons, List.map_cons, hkept, List.cons_append,
      List.map_cons, String.ofList_toList]

/-- Lines that each end in a line feed are these lines and an empty one. -/
theorem lines_join {ls : List String} (h : ∀ line ∈ ls, IsLine line) :
    lines (String.join (ls.map fun line => line ++ "\n")) = ls ++ [""] := by
  induction ls with
  | nil => rfl
  | cons line ls ih =>
    have hrest := ih fun other hmem => h other (List.mem_cons_of_mem _ hmem)
    rw [List.map_cons, String.join_cons, lines_append_feed (h line List.mem_cons_self), hrest,
      List.cons_append]

/-- A text without line feeds is its only line. -/
theorem lines_eq_singleton {line : String} (h : '\n' ∉ line.toList) : lines line = [line] := by
  rw [lines, split_eq_singleton (uncut h)]
  show [String.ofList line.toList] = [line]
  rw [String.ofList_toList]

/-- Lines with line feeds between them are these lines. -/
theorem lines_intercalate {ls : List String} (hsome : ls ≠ []) (h : ∀ line ∈ ls, IsLine line) :
    lines ("\n".intercalate ls) = ls := by
  induction ls with
  | nil => exact absurd rfl hsome
  | cons line ls ih =>
    have hline := h line List.mem_cons_self
    cases ls with
    | nil => exact lines_eq_singleton hline.noFeed
    | cons next ls =>
      have hrest := ih (List.cons_ne_nil _ _) fun other hmem =>
        h other (List.mem_cons_of_mem _ hmem)
      rw [String.intercalate_cons_cons, lines_append_feed hline, hrest]

/-- A line feed behind each line is one between them and one at the end. -/
theorem join_eq_intercalate {ls : List String} (hsome : ls ≠ []) :
    String.join (ls.map fun line => line ++ "\n") = "\n".intercalate ls ++ "\n" := by
  induction ls with
  | nil => exact absurd rfl hsome
  | cons line ls ih =>
    cases ls with
    | nil => rw [List.map_singleton, String.join_cons, String.join_nil, String.append_empty,
        String.intercalate_singleton]
    | cons next ls =>
      rw [List.map_cons, String.join_cons, ih (List.cons_ne_nil _ _),
        String.intercalate_cons_cons]
      simp only [String.append_assoc]

/-- The carriage return at the end of a line belongs to no word. -/
theorem words_withoutReturn (line : List Char) :
    words (String.ofList (withoutReturn line)) = words (String.ofList line) := by
  unfold withoutReturn
  split
  · rename_i hreturn
    obtain ⟨front, rfl⟩ := List.getLast?_eq_some_iff.mp hreturn
    rw [List.dropLast_concat, words_append_cons (by decide)]
    exact (List.append_nil _).symm
  · rfl

/-- The words on the lines of a text are those between its line feeds. -/
theorem map_words_lines (text : String) :
    (lines text).map words =
      (split (· == '\n') text.toList).map fun piece => words (String.ofList piece) := by
  obtain ⟨front, last, hpieces⟩ : ∃ front last, split (· == '\n') text.toList = front ++ [last] :=
    ⟨_, _, (List.dropLast_concat_getLast (split_ne_nil _ _)).symm⟩
  simp only [lines, hpieces, List.dropLast_concat, List.getLast?_concat, Option.toList_some,
    List.map_append, List.map_map]
  congr 1
  exact List.map_congr_left fun line _ => words_withoutReturn line

/-- Whatever two texts are, with a line feed between them they have the words of the lines of
    both. -/
theorem map_words_lines_append (front back : String) :
    (lines (front ++ "\n" ++ back)).map words = (lines front ++ lines back).map words := by
  have hlist : (front ++ "\n" ++ back).toList = front.toList ++ '\n' :: back.toList := by simp
  rw [List.map_append, map_words_lines, map_words_lines, map_words_lines, hlist,
    @split_append (· == '\n') '\n' (beq_self_eq_true '\n'), List.map_append]

/-! ## Trimming -/

/-- What ends a list ends it also with other texts in front. -/
theorem exists_intercalate_eq_append (separator : String) {ls : List String} {last : String}
    (h : ls.getLast? = some last) : ∃ front, separator.intercalate ls = front ++ last := by
  induction ls with
  | nil => cases h
  | cons line ls ih =>
    cases ls with
    | nil =>
      obtain rfl : line = last := Option.some.inj h
      exact ⟨"", by rw [String.empty_append, String.intercalate_singleton]⟩
    | cons next ls =>
      rw [List.getLast?_cons_cons] at h
      obtain ⟨front, hfront⟩ := ih h
      refine ⟨line ++ separator ++ front, ?_⟩
      rw [String.intercalate_cons_cons, hfront]
      simp only [String.append_assoc]

/-- What stands behind the last word of a text is cut off if it is blank. -/
theorem trimEnd_append (front : String) {word blanks : String} (hword : IsWord word)
    (hblanks : ∀ c ∈ blanks.toList, isBlank c = true) :
    trimEnd (front ++ word ++ blanks) = front ++ word := by
  have hdropped : ∀ c ∈ blanks.toList.reverse, isBlank c = true :=
    fun c hc => hblanks c (List.mem_reverse.mp hc)
  -- read from behind, what is left begins with a character of the word
  obtain ⟨last, others, hback⟩ : ∃ last others, word.toList.reverse = last :: others := by
    refine List.exists_cons_of_ne_nil fun hnil => hword.nonempty ?_
    exact String.toList_inj.mp (List.reverse_eq_nil_iff.mp hnil)
  have hlast : isBlank last = false := by
    refine hword.solid last (List.mem_reverse.mp ?_)
    rw [hback]
    exact List.mem_cons_self
  have hkept : (front ++ word).toList.reverse = last :: (others ++ front.toList.reverse) := by
    rw [String.toList_append, List.reverse_append, hback, List.cons_append]
  have hsolid : ¬ isBlank last = true := by
    rw [hlast]
    exact Bool.false_ne_true
  rw [trimEnd, String.toList_append, List.reverse_append, List.dropWhile_append_of_pos hdropped,
    hkept, List.dropWhile_cons_of_neg hsolid, ← hkept, List.reverse_reverse, String.ofList_toList]

/-- Of lines that end in words the last line feed is cut off. -/
theorem trimEnd_join {ls : List String} {front last : String}
    (h : ls.getLast? = some (front ++ last)) (hlast : IsWord last) :
    trimEnd (String.join (ls.map fun line => line ++ "\n")) = "\n".intercalate ls := by
  have hsome : ls ≠ [] := by
    rintro rfl
    cases h
  obtain ⟨before, hbefore⟩ := exists_intercalate_eq_append "\n" h
  have hfeed : "\n".toList.all isBlank = true := by decide
  rw [join_eq_intercalate hsome, hbefore, ← String.append_assoc]
  exact trimEnd_append _ hlast (List.all_eq_true.mp hfeed)

end AccessRules.Text
