import AccessRules.Outline.Basic
import AccessRules.Proofs.Hex
import AccessRules.Proofs.Outline.Accepted
import AccessRules.Proofs.Text.Pieces

/-!
# The line of a proper data object

An object of a row of rules is shown on one line, from which its depth, its tag and its content are
known again.  What is written behind a value to explain it, and the name of the tag, are not needed
for that, but they must not get in the way.

1. **Values** — a value is shown as its digits, or as a word for no value, and is known again from
   that word (`shownValue_injective`).  An explanation stands behind it and has no blanks other than
   spaces in it (`annotated_valueText`).

2. **Tags** — there are ten tags in a row of rules, so what is needed of their digits and names is
   found out by going through them.

3. **Lines** — a line is an indentation, a tag with its name, and a value if there is one (`Shown`).
   What is indented does not begin with a space (`eq_of_indentation`), and behind the indentation
   the first word is the tag and the third one the value (`Nested.Shown.exists_text`), so one line
   shows one mark (`Nested.mark_eq_of_shown`).

4. **Entries** — the line of an entry that agrees with a proper object shows this object
   (`Nested.line_of_agrees`, `Nested.shown_line`), and it is one line (`Nested.isPlain_line`).
-/

namespace AccessRules.Outline

/-! ## Values -/

/-- The value of an object as digits, or the words for no value. -/
def shownValue (value : Bytes) : String :=
  if value = [] then "(empty)" else Hex.encodeUpper value

/-- A value is shown as one word. -/
theorem isWord_shownValue (value : Bytes) : Text.IsWord (shownValue value) := by
  unfold shownValue
  split
  · exact Text.isWord_of_all (by decide) (by decide)
  · rename_i hsome
    refine ⟨fun hempty => hsome (Hex.encodeUpper_injective hempty), fun c hc => ?_⟩
    exact (Hex.upper_of_mem_encodeUpper hc).1

/-- The words for no value are no digits, so values are known again. -/
theorem shownValue_injective {value other : Bytes} (h : shownValue value = shownValue other) :
    value = other := by
  have hdigits : ∀ octets, "(empty)" ≠ Hex.encodeUpper octets := by
    intro octets heq
    have hmem : '(' ∈ (Hex.encodeUpper octets).toList := heq ▸ by decide
    exact (Hex.upper_of_mem_encodeUpper hmem).2 rfl
  unfold shownValue at h
  split at h
  · split at h
    · rename_i hnone hnone'
      rw [hnone, hnone']
    · exact absurd h (hdigits other)
  · split at h
    · exact absurd h.symm (hdigits value)
    · exact Hex.encodeUpper_injective h

/-- `Annotated shown text` — the text is what is shown, or has a note behind it. -/
inductive Annotated (shown : String) : String → Prop
  | alone : Annotated shown shown
  | noted {note : String} (plain : Text.IsPlain note) : Annotated shown (shown ++ " " ++ note)

/-- A note in brackets. -/
theorem Annotated.bracketed {shown before opening words closing : String}
    (hbefore : " " ++ opening = before) (h : Text.IsPlain (opening ++ words ++ closing)) :
    Annotated shown (shown ++ before ++ words ++ closing) := by
  have hnote : shown ++ before ++ words ++ closing =
      shown ++ " " ++ (opening ++ words ++ closing) := by
    simp only [← hbefore, String.append_assoc]
  rw [hnote]
  exact .noted h

/-- Digits are plain. -/
theorem isPlain_encodeUpper (octets : Bytes) : Text.IsPlain (Hex.encodeUpper octets) :=
  fun _ hc => .inr (Hex.upper_of_mem_encodeUpper hc).1

/-- What a permission is called is plain. -/
theorem isPlain_permissionWord {octets : Bytes} : ∀ word ∈ permissionWord? octets,
    Text.IsPlain word := by
  intro word hword
  unfold permissionWord? at hword
  split at hword
  · obtain ⟨permission, -, rfl⟩ := Option.map_eq_some_iff.mp hword
    cases permission <;> exact Text.isPlain_of_all (by decide)
  · cases hword

/-- What the access to commands means is plain: filters are digits with a few signs. -/
theorem isPlain_apduMeaning {octets : Bytes} : ∀ word ∈ apduMeaning? octets,
    Text.IsPlain word := by
  intro word hword
  unfold apduMeaning? at hword
  split at hword
  · rename_i permission hpermission
    obtain rfl := Option.some.inj hword
    exact isPlain_permissionWord _ hpermission
  · -- filters are digits with slashes and commas between them
    obtain ⟨filters, -, rfl⟩ := Option.map_eq_some_iff.mp hword
    have hseparator : Text.IsPlain ", " := Text.isPlain_of_all (by decide)
    have hslash : Text.IsPlain "/" := Text.isPlain_of_all (by decide)
    have hfilter : Text.IsPlain "filter " := Text.isPlain_of_all (by decide)
    refine hfilter.append (hseparator.intercalate fun line hmem => ?_)
    obtain ⟨filter, -, rfl⟩ := List.mem_map.mp hmem
    exact ((isPlain_encodeUpper _).append hslash).append (isPlain_encodeUpper _)

/-- A number is plain. -/
theorem isPlain_toString (n : Nat) : Text.IsPlain (toString n) := by
  intro c hc
  rw [Nat.toString_eq_repr, Nat.repr_eq_ofList_toDigits, String.toList_ofList] at hc
  have hdigit := Nat.isDigit_of_mem_toDigits (by decide) (by decide) hc
  obtain ⟨hlow, hhigh⟩ : 48 ≤ c.toNat ∧ c.toNat ≤ 57 := Char.isDigit_iff_toNat.mp hdigit
  exact .inr (Text.isBlank_of_visible (by omega))

/-- What carrier privileges mean is plain: numbers with a few signs. -/
theorem isPlain_permissionsMeaning {octets : Bytes} : ∀ word ∈ permissionsMeaning? octets,
    Text.IsPlain word := by
  intro word hword
  unfold permissionsMeaning? at hword
  split at hword
  · cases hword
  · split at hword
    · obtain rfl := Option.some.inj hword
      exact Text.isPlain_of_all (by decide)
    · obtain rfl := Option.some.inj hword
      have hseparator : Text.IsPlain ", " := Text.isPlain_of_all (by decide)
      have hbits : Text.IsPlain "bits " := Text.isPlain_of_all (by decide)
      refine hbits.append (hseparator.intercalate fun line hmem => ?_)
      obtain ⟨bit, -, rfl⟩ := List.mem_map.mp hmem
      exact isPlain_toString bit

/-- What a value means stands behind it in brackets. -/
theorem annotated_withMeaning {value : Bytes} (hsome : value ≠ []) {meaning : Option String}
    (hplain : ∀ word ∈ meaning, Text.IsPlain word) :
    Annotated (shownValue value) (withMeaning value meaning) := by
  rw [shownValue, if_neg hsome]
  cases meaning with
  | none => exact .alone
  | some word =>
    have hopen : Text.IsPlain "(" := Text.isPlain_of_all (by decide)
    have hclose : Text.IsPlain ")" := Text.isPlain_of_all (by decide)
    exact .bracketed rfl ((hopen.append (hplain word rfl)).append hclose)

/-- The value of a proper object is shown by its digits, with or without a note. -/
theorem annotated_valueText {depth tag : Nat} {value : Bytes} (h : Proper depth tag value) :
    Annotated (shownValue value) (valueText tag value) := by
  have hsome : tag ∉ [Objects.anyAidRef, Objects.deviceAppIdRef] → value ≠ [] :=
    fun hnot hempty => hnot (h.empty hempty)
  unfold valueText
  split
  · rename_i htag
    obtain rfl := Int.ofNat.inj htag
    exact annotated_withMeaning (hsome (by decide)) isPlain_apduMeaning
  · split
    · rename_i htag
      obtain rfl := Int.ofNat.inj htag
      exact annotated_withMeaning (hsome (by decide)) isPlain_permissionWord
    · split
      · rename_i htag
        obtain rfl := Int.ofNat.inj htag
        exact annotated_withMeaning (hsome (by decide)) isPlain_permissionsMeaning
      · split
        · rename_i htag
          -- a package name is shown as its characters too, which are visible
          obtain rfl := Int.ofNat.inj htag
          have hopen : Text.IsPlain "[" := Text.isPlain_of_all (by decide)
          have hclose : Text.IsPlain "]" := Text.isPlain_of_all (by decide)
          have hname : Text.IsPlain (Text.ofSevenBit value) := by
            intro c hc
            exact .inr (Text.isBlank_of_visible (lt_of_mem_packageName (h.packageName rfl) c hc))
          rw [shownValue, if_neg (hsome (by decide))]
          exact .bracketed rfl ((hopen.append hname).append hclose)
        · exact .alone

/-! ## Tags -/

/-- The tags that a row of rules has at any depth. -/
def tags : List Nat := tagsAt 0 ++ tagsAt 1 ++ tagsAt 2

/-- A tag at any depth is one of the ten. -/
theorem mem_tags {depth tag : Nat} (h : tag ∈ tagsAt depth) : tag ∈ tags := by
  unfold tagsAt at h
  unfold tags tagsAt
  split at h
  · exact List.mem_append_left _ (List.mem_append_left _ h)
  · exact List.mem_append_left _ (List.mem_append_right _ h)
  · exact List.mem_append_right _ h
  · cases h

/-- The tags of a row of rules say of themselves which objects are containers. -/
theorem holdsObjects_eq : ∀ tag ∈ tags, holdsObjects tag = isContainer tag := by decide

theorem lt_of_mem_tags : ∀ tag ∈ tags, tag < 256 := by decide

/-- Objects that hold others are none of the two that may be empty. -/
theorem not_mem_of_isContainer : ∀ tag ∈ tags, isContainer tag = true →
    tag ∉ [Objects.anyAidRef, Objects.deviceAppIdRef] := by decide

/-- The ten tags have different digits. -/
theorem numberUpper_injective : ∀ tag ∈ tags, ∀ other ∈ tags,
    Hex.numberUpper tag = Hex.numberUpper other → tag = other := by decide

theorem solid_numberUpper : ∀ tag ∈ tags, Hex.numberUpper tag ≠ "" ∧
    ((Hex.numberUpper tag).toList.all fun c => !Text.isBlank c) = true := by decide

/-- The names of the ten tags have no blanks in them. -/
theorem solid_nameOf : ∀ tag ∈ tags,
    (("(" ++ nameOf tag ++ "):").toList.all fun c => !Text.isBlank c) = true := by decide

theorem isWord_numberUpper {tag : Nat} (h : tag ∈ tags) : Text.IsWord (Hex.numberUpper tag) :=
  Text.isWord_of_all (solid_numberUpper tag h).1 (solid_numberUpper tag h).2

theorem isWord_nameOf {tag : Nat} (h : tag ∈ tags) : Text.IsWord ("(" ++ nameOf tag ++ "):") := by
  refine Text.isWord_of_all (fun hempty => ?_) (solid_nameOf tag h)
  have hmem : '(' ∈ ("(" ++ nameOf tag ++ "):").toList := by simp
  rw [hempty] at hmem
  cases hmem

/-! ## Lines -/

/-- The spaces in front of a line. -/
def indentation (depth : Nat) : String := String.ofList (List.replicate (2 * depth) ' ')

/-- The tag of an object with its name. -/
def Nested.title (object : Nested) : String :=
  Hex.numberUpper object.tag ++ " " ++ ("(" ++ nameOf object.tag ++ "):")

/-- The line of an object, without the line feed. -/
def Nested.line (object : Nested) : String :=
  indentation object.depth ++ (object.title ++
    (if isContainer object.tag then "" else " " ++ valueText object.tag object.value))

/-- `object.Shown line` — the line is indented by the depth of the object and has its tag, and if
it is no container then its value as digits. -/
inductive Nested.Shown (object : Nested) : String → Prop
  | container (opened : isContainer object.tag = true) :
      Nested.Shown object (indentation object.depth ++ object.title)
  | primitive (closed : isContainer object.tag = false) {text : String}
      (shown : Annotated (shownValue object.value) text) :
      Nested.Shown object (indentation object.depth ++ (object.title ++ " " ++ text))

/-- A title is the tag and its name. -/
theorem Nested.words_title {object : Nested} (h : object.tag ∈ tags) :
    Text.words object.title =
      [Hex.numberUpper object.tag, "(" ++ nameOf object.tag ++ "):"] := by
  rw [Nested.title, Text.words_append_blank (isWord_numberUpper h),
    Text.words_eq_singleton (isWord_nameOf h)]

/-- Behind a title the words go on with those of the value. -/
theorem Nested.words_title_append {object : Nested} (h : object.tag ∈ tags) (text : String) :
    Text.words (object.title ++ " " ++ text) =
      Hex.numberUpper object.tag :: ("(" ++ nameOf object.tag ++ "):") :: Text.words text := by
  have hassoc : object.title ++ " " ++ text =
      Hex.numberUpper object.tag ++ " " ++ ("(" ++ nameOf object.tag ++ "):" ++ " " ++ text) := by
    simp only [Nested.title, String.append_assoc]
  rw [hassoc, Text.words_append_blank (isWord_numberUpper h),
    Text.words_append_blank (isWord_nameOf h)]

theorem isPlain_indentation (depth : Nat) : Text.IsPlain (indentation depth) := by
  intro c hc
  rw [indentation, String.toList_ofList] at hc
  exact .inl (List.eq_of_mem_replicate hc)

theorem Annotated.isPlain {shown text : String} (h : Annotated shown text)
    (hshown : Text.IsPlain shown) : Text.IsPlain text := by
  cases h with
  | alone => exact hshown
  | noted plain =>
    have hspace : Text.IsPlain " " := Text.isPlain_of_all (by decide)
    exact (hshown.append hspace).append plain

/-- The first word of a value with a note is the value. -/
theorem Annotated.exists_words {shown text : String} (h : Annotated shown text)
    (hshown : Text.IsWord shown) : ∃ notes, Text.words text = shown :: notes := by
  cases h with
  | alone => exact ⟨[], Text.words_eq_singleton hshown⟩
  | noted plain => exact ⟨_, Text.words_append_blank hshown _⟩

/-- The spaces in front of a text that begins otherwise. -/
theorem takeWhile_spaces {cs : List Char} (h : cs.head? ≠ some ' ') (n : Nat) :
    (List.replicate n ' ' ++ cs).takeWhile (· == ' ') = List.replicate n ' ' := by
  have hspaces : ∀ c ∈ List.replicate n ' ', (c == ' ') = true := by
    intro c hc
    rw [List.eq_of_mem_replicate hc]
    rfl
  rw [List.takeWhile_append_of_pos hspaces]
  cases cs with
  | nil => exact List.append_nil _
  | cons c cs =>
    have hc : ¬ (c == ' ') = true := by
      rw [beq_iff_eq]
      exact fun hspace => h (congrArg some hspace)
    rw [List.takeWhile_cons, if_neg hc, List.append_nil]

/-- What is indented does not begin with a space, so the indentation is known again. -/
theorem eq_of_indentation {depth depth' : Nat} {text text' : String}
    (h : text.toList.head? ≠ some ' ') (h' : text'.toList.head? ≠ some ' ')
    (heq : indentation depth ++ text = indentation depth' ++ text') :
    depth = depth' ∧ text = text' := by
  have hlist := congrArg String.toList heq
  simp only [indentation, String.toList_append, String.toList_ofList] at hlist
  have hspaces := takeWhile_spaces h (2 * depth)
  rw [hlist, takeWhile_spaces h'] at hspaces
  obtain rfl : depth = depth' := by
    have hcount := congrArg List.length hspaces
    rw [List.length_replicate, List.length_replicate] at hcount
    omega
  exact ⟨rfl, String.toList_inj.mp (List.append_cancel_left hlist)⟩

/-- What begins with a title does not begin with a space. -/
theorem Nested.head?_title_append {object : Nested} (h : object.tag ∈ tags) (text : String) :
    (object.title ++ text).toList.head? ≠ some ' ' := by
  have hword := isWord_numberUpper h
  intro hhead
  rw [Nested.title, String.append_assoc, String.append_assoc, String.toList_append] at hhead
  cases hdigits : (Hex.numberUpper object.tag).toList with
  | nil => exact hword.nonempty (String.toList_inj.mp hdigits)
  | cons c cs =>
    rw [hdigits] at hhead
    obtain rfl : c = ' ' := Option.some.inj hhead
    have hsolid := hword.solid ' ' (hdigits ▸ List.mem_cons_self)
    exact absurd hsolid (by decide)

/-- The first word of a line is the tag, and the third one the value. -/
theorem Nested.Shown.exists_text {object : Nested} {line : String} (h : object.Shown line)
    (htag : object.tag ∈ tags) : ∃ text, line = indentation object.depth ++ text ∧
      text.toList.head? ≠ some ' ' ∧ (Text.words text)[0]? = some (Hex.numberUpper object.tag) ∧
      (Text.words text)[2]? =
        if isContainer object.tag then none else some (shownValue object.value) := by
  cases h with
  | container opened =>
    have hhead := Nested.head?_title_append htag ""
    rw [String.append_empty] at hhead
    refine ⟨_, rfl, hhead, ?_⟩
    rw [Nested.words_title htag, if_pos opened]
    exact ⟨rfl, rfl⟩
  | @primitive closed text shown =>
    have hhead := Nested.head?_title_append htag (" " ++ text)
    rw [← String.append_assoc] at hhead
    obtain ⟨notes, hnotes⟩ := shown.exists_words (isWord_shownValue _)
    refine ⟨_, rfl, hhead, ?_⟩
    rw [Nested.words_title_append htag, hnotes, closed]
    exact ⟨rfl, rfl⟩

/-- A line shows the mark of one object. -/
theorem Nested.mark_eq_of_shown {object object' : Nested} {line : String}
    (htag : object.tag ∈ tags) (htag' : object'.tag ∈ tags) (h : object.Shown line)
    (h' : object'.Shown line) : object.mark = object'.mark := by
  obtain ⟨text, hline, hhead, hfirst, hthird⟩ := h.exists_text htag
  obtain ⟨text', hline', hhead', hfirst', hthird'⟩ := h'.exists_text htag'
  obtain ⟨hdepth, rfl⟩ := eq_of_indentation hhead hhead' (hline.symm.trans hline')
  have hsame : object.tag = object'.tag :=
    numberUpper_injective _ htag _ htag' (Option.some.inj (hfirst.symm.trans hfirst'))
  -- the third word is the value, if the object holds none
  have hcontent : object.content = object'.content := by
    rw [hthird, hsame] at hthird'
    unfold Nested.content
    rw [hsame]
    cases hcontainer : isContainer object'.tag with
    | true => rfl
    | false =>
      rw [hcontainer] at hthird'
      exact shownValue_injective (Option.some.inj hthird')
  rw [Nested.mark, Nested.mark, hdepth, hsame, hcontent]

/-! ## Entries -/

section Proper

variable {object : Nested} (h : Proper object.depth object.tag object.value)
include h

/-- The line of an object shows the object. -/
theorem Nested.shown_line : object.Shown object.line := by
  unfold Nested.line
  cases hcontainer : isContainer object.tag with
  | true =>
    rw [if_pos rfl, String.append_empty]
    exact .container hcontainer
  | false =>
    have hassoc : object.title ++ (" " ++ valueText object.tag object.value) =
        object.title ++ " " ++ valueText object.tag object.value := String.append_assoc.symm
    rw [if_neg Bool.false_ne_true, hassoc]
    exact .primitive hcontainer (annotated_valueText h)

/-- The line of a proper object is plain, and so it is one line. -/
theorem Nested.isPlain_line : Text.IsPlain object.line := by
  have hspace : Text.IsPlain " " := Text.isPlain_of_all (by decide)
  have htag := mem_tags h.allowed
  have htitle : Text.IsPlain object.title :=
    ((isWord_numberUpper htag).isPlain.append hspace).append (isWord_nameOf htag).isPlain
  refine (isPlain_indentation _).append (htitle.append ?_)
  split
  · exact Text.isPlain_of_all (by decide)
  · exact hspace.append ((annotated_valueText h).isPlain (isWord_shownValue _).isPlain)

/-- The line of an entry that shows an object is that of the object, and a line feed. -/
theorem Nested.line_of_agrees {entry : Entry} (hagrees : Agrees object entry) :
    entry.line = object.line ++ "\n" := by
  have htag := mem_tags h.allowed
  have hsmall := lt_of_mem_tags _ htag
  have hbit : holdsObjects object.tag = isContainer object.tag := holdsObjects_eq _ htag
  have hdigits : Hex.signedUpper object.tag = Hex.numberUpper object.tag := by
    have hsign : ¬ (object.tag : Int) < 0 := by omega
    rw [Hex.signedUpper, if_neg hsign, Int.natAbs_natCast, Hex.sizeUpper_eq (by omega)]
  -- containers have a value, so there is something inside them to be shown
  have hparent : entry.isParent = isContainer object.tag := by
    rw [hagrees.isParent, hbit]
    cases hcontainer : isContainer object.tag with
    | false => rfl
    | true =>
      have hsome : object.value ≠ [] :=
        fun hempty => not_mem_of_isContainer _ htag hcontainer (h.empty hempty)
      rw [List.isEmpty_eq_false_iff.mpr hsome]
      rfl
  have hvalue : (if entry.isParent then "" else " " ++ valueText entry.tag entry.value) =
      if isContainer object.tag then "" else " " ++ valueText object.tag object.value := by
    rw [hparent]
    cases hcontainer : isContainer object.tag with
    | true => rfl
    | false => rw [hagrees.tag, hagrees.value (hbit.trans hcontainer)]
  rw [Entry.line, hvalue, hagrees.tag, hagrees.depth, hdigits, Nested.line, Nested.title,
    show " (" = " " ++ "(" from rfl]
  simp only [indentation, String.append_assoc]

end Proper

end AccessRules.Outline
