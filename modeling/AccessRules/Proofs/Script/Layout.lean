import AccessRules.Proofs.Script.Reading
import AccessRules.Proofs.Text.Blanks
import Mathlib.Order.Monotone.Basic

/-!
# The layout of a script

A script can be laid out in many ways, and they are all read in the same way.

1. **Edits** — an edit puts a carriage return in front of a line feed, adds blanks where a line
   begins or ends, puts other blanks between two words, or puts in a line that says nothing
   (`Edit`).  With each of them goes what becomes of the numbers of the lines; several edits in a
   row are a new layout (`Relaid`).

2. **Lines** — an edit leaves the words on the lines as they are, and adds at most one line that
   says nothing, so the lines of both texts are aligned (`Edit.aligned`): each line has a line of
   the other text with the same words, under its new number, and all other lines of that text say
   nothing.  Texts that are aligned with a third one in between are aligned (`Aligned.trans`), so
   this is true of new layouts also (`Relaid.aligned`), and lines stay in their order
   (`Relaid.strictMono`).

3. **Reading** — by induction on the alignment, aligned lines are read as the same operations or
   fail with the same flaw, under their new numbers (`parseLines_of_aligned`).
-/

namespace AccessRules.Script

/-! ## Edits -/

/-- `Silent line` — the line is blank, or begins with a `#` behind blanks. -/
inductive Silent : String → Prop
  | blank {line : String} (gap : Text.IsGap line) : Silent line
  | comment {blanks rest : String} (gap : Text.IsGap blanks) (noFeed : '\n' ∉ rest.toList) :
      Silent (blanks ++ "#" ++ rest)

/-- `BeginsLine front` — what stands behind the text is at the start of a line. -/
def BeginsLine (front : String) : Prop := front = "" ∨ ∃ before, front = before ++ "\n"

/-- `EndsLine back` — what stands in front of the text is at the end of a line. -/
def EndsLine (back : String) : Prop :=
  back = "" ∨ ∃ after, back = "\n" ++ after ∨ back = "\r\n" ++ after

/-- The new number of a line if a line is put in behind the first `count` ones. -/
def behind (count number : Nat) : Nat := if number ≤ count then number else number + 1

/-- `Edit text text' moved` — the texts differ in one place of their layout, and the line `number`
of the first one is the line `moved number` of the second one. -/
inductive Edit : String → String → (Nat → Nat) → Prop
  | carriageReturn (front back : String) :
      Edit (front ++ "\n" ++ back) (front ++ "\r\n" ++ back) id
  | pad {front back gap : String} (blank : Text.IsGap gap)
      (edge : BeginsLine front ∨ EndsLine back) : Edit (front ++ back) (front ++ gap ++ back) id
  | respace (front back : String) {gap other : String} (blank : Text.IsGap gap) (some : gap ≠ "")
      (blank' : Text.IsGap other) (some' : other ≠ "") :
      Edit (front ++ gap ++ back) (front ++ other ++ back) id
  | insertFirst {line : String} (silent : Silent line) (text : String) :
      Edit text (line ++ "\n" ++ text) (behind 0)
  | insertBetween {line : String} (silent : Silent line) (front back : String) :
      Edit (front ++ "\n" ++ back) (front ++ "\n" ++ line ++ "\n" ++ back)
        (behind (Text.lines front).length)
  | insertLast {line : String} (silent : Silent line) (text : String) :
      Edit text (text ++ "\n" ++ line) (behind (Text.lines text).length)

/-- `Relaid text text' moved` — the second text comes from the first one by edits of its layout, and
the line `number` of the first one is the line `moved number` of the second one. -/
inductive Relaid : String → String → (Nat → Nat) → Prop
  | refl (text : String) : Relaid text text id
  | step {text middle text' : String} {moved further : Nat → Nat}
      (before : Relaid text middle moved) (edit : Edit middle text' further) :
      Relaid text text' (further ∘ moved)

/-- Making room for a line keeps the order of the others. -/
theorem strictMono_behind (count : Nat) : StrictMono (behind count) := by
  intro number other hlt
  unfold behind
  split <;> split <;> omega

/-- An edit moves lines without exchanging any. -/
theorem Edit.strictMono {text text' : String} {moved : Nat → Nat} (h : Edit text text' moved) :
    StrictMono moved := by
  cases h with
  | carriageReturn | pad | respace => exact strictMono_id
  | insertFirst | insertBetween | insertLast => exact strictMono_behind _

/-- Lines stay in their order. -/
theorem Relaid.strictMono {text text' : String} {moved : Nat → Nat} (h : Relaid text text' moved) :
    StrictMono moved := by
  induction h with
  | refl => exact strictMono_id
  | step before edit ih => exact edit.strictMono.comp ih

/-! ## Lines that say nothing -/

/-- A silent line is one line. -/
theorem Silent.noFeed {line : String} (h : Silent line) : '\n' ∉ line.toList := by
  cases h with
  | blank gap => exact gap.noFeed
  | @comment blanks rest gap noFeed =>
    have hlist : (blanks ++ "#" ++ rest).toList = blanks.toList ++ '#' :: rest.toList := by simp
    rw [hlist, List.mem_append, List.mem_cons]
    rintro (hfeed | hfeed | hfeed)
    · exact gap.noFeed hfeed
    · exact absurd hfeed (by decide)
    · exact noFeed hfeed

/-- A silent line says nothing. -/
theorem Silent.parse?_eq {line : String} (h : Silent line) : Operation.parse? line = .ok none := by
  cases h with
  | blank gap =>
    have hwords := Text.words_blanks_append gap.blank []
    rw [List.append_nil, String.ofList_toList] at hwords
    rw [Operation.parse?, hwords]
    rfl
  | @comment blanks rest gap noFeed =>
    obtain ⟨piece, pieces, hpieces⟩ :=
      List.exists_cons_of_ne_nil (Text.split_ne_nil Text.isBlank rest.toList)
    have hlist : (blanks ++ "#" ++ rest).toList = blanks.toList ++ '#' :: rest.toList := by simp
    have hblanks := Text.words_blanks_append gap.blank ('#' :: rest.toList)
    have hsharp : ¬ Text.isBlank '#' = true := by decide
    -- the first word goes on behind the sign, however far, but it begins with it
    have hfirst : ∃ others, Text.words (blanks ++ "#" ++ rest) =
        String.ofList ('#' :: piece) :: others := by
      rw [← hlist, String.ofList_toList, Text.words, Text.words, String.toList_ofList,
        Text.split_cons, if_neg hsharp, hpieces] at hblanks
      exact ⟨_, hblanks⟩
    obtain ⟨others, hwords⟩ := hfirst
    have hcomment : (String.ofList ('#' :: piece)).toList.head? = some '#' := by
      rw [String.toList_ofList]
      rfl
    rw [Operation.parse?, hwords]
    exact if_pos hcomment

/-! ## Lines -/

/-- `Aligned moved ls ls'` — each of the lines `ls` stands with the same words in `ls'`, under its
new number, and all other lines there say nothing. -/
inductive Aligned (moved : Nat → Nat) : List (Numbered String) → List (Numbered String) → Prop
  | nil : Aligned moved [] []
  | same {number : Nat} {line line' : String} {ls ls' : List (Numbered String)}
      (words : Text.words line' = Text.words line) (rest : Aligned moved ls ls') :
      Aligned moved (⟨number, line⟩ :: ls) (⟨moved number, line'⟩ :: ls')
  | silent {number : Nat} {line : String} {ls ls' : List (Numbered String)}
      (none : Operation.parse? line = .ok none) (rest : Aligned moved ls ls') :
      Aligned moved ls (⟨number, line⟩ :: ls')

/-- Alignments are put one behind the other. -/
theorem Aligned.append {moved : Nat → Nat} {ls ls' others others' : List (Numbered String)}
    (h : Aligned moved ls ls') (h' : Aligned moved others others') :
    Aligned moved (ls ++ others) (ls' ++ others') := by
  induction h with
  | nil => exact h'
  | same words rest ih => exact .same words ih
  | silent none rest ih => exact .silent none ih

/-- What is aligned with something aligned is aligned, with the moves composed. -/
theorem Aligned.trans {moved further : Nat → Nat} {ls ls' ls'' : List (Numbered String)}
    (h : Aligned moved ls ls') (h' : Aligned further ls' ls'') :
    Aligned (further ∘ moved) ls ls'' := by
  induction h' generalizing ls with
  | nil =>
    cases h
    exact .nil
  | same words' rest' ih =>
    cases h with
    | same words rest => exact .same (words'.trans words) (ih rest)
    | silent none rest => exact .silent ((parse?_congr words').trans none) (ih rest)
  | silent none' rest' ih => exact .silent none' (ih h)

/-- Lines with the same words, all of them moved by the same number of lines. -/
theorem aligned_numberFrom {moved : Nat → Nat} {ls ls' : List String}
    (h : ls'.map Text.words = ls.map Text.words) {start shift : Nat}
    (hmoved : ∀ number, start ≤ number → number < start + ls.length →
      moved number = number + shift) :
    Aligned moved (numberFrom start ls) (numberFrom (start + shift) ls') := by
  induction ls generalizing ls' start with
  | nil =>
    obtain rfl := List.map_eq_nil_iff.mp h
    exact .nil
  | cons line ls ih =>
    obtain ⟨line', others, rfl, hline, hrest⟩ := List.map_eq_cons_iff.mp h
    have hfirst := hmoved start (Nat.le_refl _) (by rw [List.length_cons]; omega)
    -- the others start one further on, on both sides
    have hothers : Aligned moved (numberFrom (start + 1) ls)
        (numberFrom (start + 1 + shift) others) := ih hrest fun number hle hlt =>
      hmoved number (by omega) (by rw [List.length_cons]; omega)
    have hnext : start + shift + 1 = start + 1 + shift := Nat.add_right_comm start shift 1
    rw [numberFrom, numberFrom, hnext, ← hfirst]
    exact .same hline hothers

theorem aligned_of_words {ls ls' : List String} (h : ls'.map Text.words = ls.map Text.words)
    (start : Nat) : Aligned id (numberFrom start ls) (numberFrom start ls') :=
  @aligned_numberFrom id ls ls' h start 0 fun _ _ _ => rfl

/-- A silent line may stand behind any line, and in front of the first one. -/
theorem aligned_insert {line text text' : String} (h : Silent line) {front back : List String}
    (htext : (Text.lines text).map Text.words = (front ++ back).map Text.words)
    (htext' : (Text.lines text').map Text.words = (front ++ line :: back).map Text.words) :
    Aligned (behind front.length) (lines text) (lines text') := by
  have hfront : Aligned (behind front.length) (numberFrom 1 front) (numberFrom 1 front) :=
    @aligned_numberFrom _ front front rfl 1 0 fun number hle hlt => if_pos (by omega)
  have hback : Aligned (behind front.length) (numberFrom (1 + front.length) back)
      (numberFrom (1 + front.length + 1) back) :=
    aligned_numberFrom rfl fun number hle hlt => if_neg (by omega)
  have hinserted : Aligned (behind front.length) (numberFrom 1 (front ++ back))
      (numberFrom 1 (front ++ line :: back)) := by
    rw [numberFrom_append, numberFrom_append, numberFrom]
    exact hfront.append (.silent h.parse?_eq hback)
  exact ((aligned_of_words htext.symm 1).trans hinserted).trans (aligned_of_words htext' 1)

/-- Where a line begins or ends there may be a gap or none. -/
theorem map_words_lines_pad {front back gap : String} (blank : Text.IsGap gap)
    (edge : BeginsLine front ∨ EndsLine back) :
    (Text.lines (front ++ gap ++ back)).map Text.words =
      (Text.lines (front ++ back)).map Text.words := by
  have hend : ∀ after, (Text.lines (front ++ gap ++ "\n" ++ after)).map Text.words =
      (Text.lines (front ++ "\n" ++ after)).map Text.words := fun after =>
    Text.map_words_lines_congr (Text.map_words_lines_append_gap blank front) rfl
  -- the blanks stand at the begin of a line or at its end, and there with or without a text behind
  rcases edge with (rfl | ⟨before, rfl⟩) | (rfl | ⟨after, rfl | rfl⟩)
  · rw [String.empty_append, String.empty_append, Text.map_words_lines_gap_append blank]
  · have hback : before ++ "\n" ++ gap ++ back = before ++ "\n" ++ (gap ++ back) :=
      String.append_assoc
    rw [hback]
    exact Text.map_words_lines_congr rfl (Text.map_words_lines_gap_append blank back)
  · rw [String.append_empty, String.append_empty, Text.map_words_lines_append_gap blank]
  · rw [← String.append_assoc, ← String.append_assoc]
    exact hend after
  · rw [← String.append_assoc, ← String.append_assoc, Text.map_words_lines_return,
      Text.map_words_lines_return]
    exact hend after

/-- An edit leaves the lines as they are and adds at most one line that says nothing. -/
theorem Edit.aligned {text text' : String} {moved : Nat → Nat} (h : Edit text text' moved) :
    Aligned moved (lines text) (lines text') := by
  have hline : ∀ {line}, Silent line → (Text.lines line).map Text.words = [Text.words line] := by
    intro line silent
    rw [Text.lines_eq_singleton silent.noFeed]
    rfl
  cases h with
  | carriageReturn front back =>
    exact aligned_of_words (Text.map_words_lines_return front back) 1
  | pad blank edge => exact aligned_of_words (map_words_lines_pad blank edge) 1
  | respace front back blank some blank' some' =>
    exact aligned_of_words (Text.map_words_lines_gap blank' some' blank some front back) 1
  -- a line that is put in is aligned with nothing; the lines behind it move
  | insertFirst silent text =>
    refine @aligned_insert _ _ _ silent [] (Text.lines text) rfl ?_
    rw [Text.map_words_lines_append, List.map_append, hline silent]
    rfl
  | @insertBetween line silent front back =>
    refine aligned_insert silent (Text.map_words_lines_append front back) ?_
    rw [Text.map_words_lines_append, List.map_append, Text.map_words_lines_append, List.map_append,
      hline silent, List.map_append, List.append_assoc]
    rfl
  | insertLast silent text =>
    refine @aligned_insert _ _ _ silent (Text.lines text) [] ?_ ?_
    · rw [List.append_nil]
    · rw [Text.map_words_lines_append, List.map_append, hline silent, List.map_append]
      rfl

/-- The lines of a new layout are those of the text, and others that say nothing. -/
theorem Relaid.aligned {text text' : String} {moved : Nat → Nat} (h : Relaid text text' moved) :
    Aligned moved (lines text) (lines text') := by
  induction h with
  | refl => exact aligned_of_words rfl 1
  | step before edit ih => exact ih.trans edit.aligned

/-- Each line is found under its new number. -/
theorem Aligned.exists_line {moved : Nat → Nat} {ls ls' : List (Numbered String)}
    (h : Aligned moved ls ls') {number : Nat} {line : String} (hmem : ⟨number, line⟩ ∈ ls) :
    ∃ line', ⟨moved number, line'⟩ ∈ ls' ∧ Text.words line' = Text.words line := by
  induction h with
  | nil => cases hmem
  | same words rest ih =>
    rcases List.mem_cons.mp hmem with heq | hmem
    · cases heq
      exact ⟨_, List.mem_cons_self, words⟩
    · obtain ⟨line', hline', hwords⟩ := ih hmem
      exact ⟨line', List.mem_cons_of_mem _ hline', hwords⟩
  | silent none rest ih =>
    obtain ⟨line', hline', hwords⟩ := ih hmem
    exact ⟨line', List.mem_cons_of_mem _ hline', hwords⟩

/-- What is not a line under its new number says nothing. -/
theorem Aligned.line_cases {moved : Nat → Nat} {ls ls' : List (Numbered String)}
    (h : Aligned moved ls ls') {number' : Nat} {line' : String} (hmem : ⟨number', line'⟩ ∈ ls') :
    Operation.parse? line' = .ok none ∨
      ∃ number line, number' = moved number ∧ ⟨number, line⟩ ∈ ls ∧
        Text.words line' = Text.words line := by
  induction h with
  | nil => cases hmem
  | same words rest ih =>
    rcases List.mem_cons.mp hmem with heq | hmem
    · cases heq
      exact .inr ⟨_, _, rfl, List.mem_cons_self, words⟩
    · rcases ih hmem with hnone | ⟨number, line, hnumber, hline, hwords⟩
      · exact .inl hnone
      · exact .inr ⟨number, line, hnumber, List.mem_cons_of_mem _ hline, hwords⟩
  | silent none rest ih =>
    rcases List.mem_cons.mp hmem with heq | hmem
    · cases heq
      exact .inl none
    · exact ih hmem

/-! ## Reading -/

/-- The same thing on the line that this line has become. -/
def Numbered.renumber {α : Type} (moved : Nat → Nat) (numbered : Numbered α) : Numbered α :=
  { numbered with line := moved numbered.line }

/-- Aligned lines are read as the same operations, or fail with the same flaw. -/
theorem parseLines_of_aligned {moved : Nat → Nat} {ls ls' : List (Numbered String)}
    (h : Aligned moved ls ls') : parseLines ls' =
      ((parseLines ls).map (List.map (Numbered.renumber moved))).mapError
        (Numbered.renumber moved) := by
  induction h with
  | nil => rfl
  | @same number line line' ls ls' words rest ih =>
    have hsame := parse?_congr words
    cases hparse : Operation.parse? line with
    | error flaw =>
      rw [parseLines_cons_of_error hparse, parseLines_cons_of_error (hsame.trans hparse)]
      rfl
    | ok found =>
      cases found with
      | none =>
        rw [parseLines_cons_of_none hparse, parseLines_cons_of_none (hsame.trans hparse), ih]
      | some operation =>
        rw [parseLines_cons_of_some hparse, parseLines_cons_of_some (hsame.trans hparse), ih]
        cases parseLines ls <;> rfl
  | silent none rest ih => rw [parseLines_cons_of_none none, ih]

end AccessRules.Script
