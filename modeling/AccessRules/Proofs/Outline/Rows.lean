import AccessRules.Proofs.Outline.Lines

/-!
# The outline of a row of rules

The outline of octets that are decoded as rules has a line for each data object, and looking for a
tag goes through the same objects, whatever reader it is that shows these.

1. **Agreement** — the text of the outline is read off the listing of the octets
   (`renderBy_of_proper`), and so is what is found under a tag (`findBy?_of_none`,
   `findBy?_of_some`), but for the value of an object that holds objects, which the reader may hide.

2. **Nothing is lost** — no line has a line feed in it, so texts that are equal have equal lines,
   these show equal marks, and the marks determine the octets (`eq_of_renderBy_eq`).

`outline_of_decode` has both.  What is found under a tag is the value of the first object with that
tag, unless that object holds objects; then nothing of its value is found (`find?_rule_empty`).
-/

namespace AccessRules.Outline

/-! ## Agreement -/

/-- The lines of entries that agree with proper objects. -/
theorem map_line_of_agrees {objects : List Nested} {found : List Entry}
    (h : List.Forall₂ Agrees objects found)
    (hproper : ∀ object ∈ objects, Proper object.depth object.tag object.value) :
    found.map Entry.line = objects.map fun object => object.line ++ "\n" := by
  induction h with
  | nil => rfl
  | cons hfirst _ ih =>
    obtain ⟨hobject, hothers⟩ := List.forall_mem_cons.mp hproper
    rw [List.map_cons, List.map_cons, Nested.line_of_agrees hobject hfirst, ih hothers]

/-- The first entry with a tag agrees with the first object with it. -/
theorem find?_of_agrees {objects : List Nested} {found : List Entry}
    (h : List.Forall₂ Agrees objects found) (tag : Int) :
    Option.Rel Agrees (objects.find? fun object => object.tag = tag)
      (found.find? fun entry => entry.tag = tag) := by
  induction h with
  | nil => exact .none
  | @cons object entry objects found hfirst _ ih =>
    rw [List.find?_cons, List.find?_cons, hfirst.tag]
    -- the tags are the same, so both are found here or both further behind
    split
    · exact .some hfirst
    · exact ih

section Row

variable {reader : Bytes → Except Flaw (List Entry)} (hreader : ReadsObjects reader)
  {octets : Bytes} {objects : List Nested} (h : Listing isContainer 0 octets objects)
  (hproper : ∀ object ∈ objects, Proper object.depth object.tag object.value)
include h hproper

/-- The listing is the same whether tags say of themselves that they nest. -/
theorem listing_of_proper : Listing holdsObjects 0 octets objects :=
  h.congr fun object hmem => holdsObjects_eq _ (mem_tags (hproper object hmem).allowed)

omit h in
/-- Proper objects have tags of one octet. -/
theorem small_of_proper : ∀ object ∈ objects, object.tag < 0x100 :=
  fun object hmem => lt_of_mem_tags _ (mem_tags (hproper object hmem).allowed)

include hreader

/-- A reader that shows data objects shows those of a row of rules. -/
theorem exists_found : ∃ found, reader octets = .ok found ∧ List.Forall₂ Agrees objects found :=
  hreader octets objects (listing_of_proper h hproper) (small_of_proper hproper)

/-- The outline has the lines of the objects, whatever reader it is drawn up by. -/
theorem renderBy_of_proper : renderBy reader octets =
    .ok (String.join (objects.map fun object => object.line ++ "\n")) := by
  obtain ⟨found, hfound, hagrees⟩ := exists_found hreader h hproper
  rw [renderBy, hfound, ← map_line_of_agrees hagrees hproper]
  rfl

/-- Nothing is found under a tag that no object has. -/
theorem findBy?_of_none {tag : Int}
    (hnone : (objects.find? fun object => object.tag = tag) = none) :
    findBy? reader octets tag = .ok none := by
  obtain ⟨found, hfound, hagrees⟩ := exists_found hreader h hproper
  have hrel := find?_of_agrees hagrees tag
  rw [hnone] at hrel
  rw [findBy?, hfound, Except.map]
  cases hfirst : found.find? fun entry => entry.tag = tag with
  | none => rfl
  | some entry =>
    rw [hfirst] at hrel
    cases hrel

/-- Something is found under the tag of an object: the value, if the tag does not nest, and nothing
but an empty value if it does and the reader hides what is inside. -/
theorem findBy?_of_some {tag : Int} {object : Nested}
    (hsome : (objects.find? fun object => object.tag = tag) = some object) :
    ∃ value, findBy? reader octets tag = .ok (some value) ∧
      (isContainer object.tag = false → value = object.value) ∧
      (HidesNested reader → isContainer object.tag = true → value = []) := by
  obtain ⟨found, hfound, hagrees⟩ := exists_found hreader h hproper
  have hrel := find?_of_agrees hagrees tag
  have hobject := hproper object (List.mem_of_find?_eq_some hsome)
  have hbit : holdsObjects object.tag = isContainer object.tag :=
    holdsObjects_eq _ (mem_tags hobject.allowed)
  rw [hsome] at hrel
  rw [findBy?, hfound, Except.map]
  cases hfirst : found.find? fun entry => entry.tag = tag with
  | none =>
    rw [hfirst] at hrel
    cases hrel
  | some entry =>
    rw [hfirst] at hrel
    obtain ⟨hentry⟩ := hrel
    refine ⟨entry.value, rfl, fun hclosed => hentry.value (hbit.trans hclosed), ?_⟩
    intro hhides hopened
    exact hhides octets objects (listing_of_proper h hproper) (small_of_proper hproper) found
      hfound entry (List.mem_of_find?_eq_some hfirst) object.tag hentry.tag (hbit.trans hopened)

end Row

/-! ## Nothing is lost -/

/-- Octets are known again from the text of their outline. -/
theorem eq_of_renderBy_eq {reader : Bytes → Except Flaw (List Entry)}
    (hreader : ReadsObjects reader) {octets other : Bytes} {objects objects' : List Nested}
    (h : Listing isContainer 0 octets objects) (h' : Listing isContainer 0 other objects')
    (hproper : ∀ object ∈ objects, Proper object.depth object.tag object.value)
    (hproper' : ∀ object ∈ objects', Proper object.depth object.tag object.value)
    (heq : renderBy reader octets = renderBy reader other) : octets = other := by
  rw [renderBy_of_proper hreader h hproper, renderBy_of_proper hreader h' hproper'] at heq
  -- no line has a line feed in it, so the text is cut into the lines again
  have hjoin : ∀ objects : List Nested,
      (∀ object ∈ objects, Proper object.depth object.tag object.value) →
      Text.lines (String.join (objects.map fun object => object.line ++ "\n")) =
        objects.map Nested.line ++ [""] := by
    intro objects hproper
    have hlines := @Text.lines_join (objects.map Nested.line) fun line hline => by
      obtain ⟨object, hmem, rfl⟩ := List.mem_map.mp hline
      exact (Nested.isPlain_line (hproper object hmem)).isLine
    rwa [List.map_map] at hlines
  have hlines := congrArg Text.lines (Except.ok.inj heq)
  rw [hjoin objects hproper, hjoin objects' hproper', List.append_cancel_right_eq] at hlines
  refine h.eq_of_marks h' ?_
  clear heq h h' hjoin
  -- the two rows of lines are one, so the objects are compared line by line
  induction objects generalizing objects' with
  | nil => rw [List.map_eq_nil_iff.mp hlines.symm]
  | cons object objects ih =>
    obtain ⟨object', others, rfl, hline, hlines⟩ := List.map_eq_cons_iff.mp hlines.symm
    rw [List.forall_mem_cons] at hproper hproper'
    have hshown := Nested.shown_line hproper'.1
    rw [hline] at hshown
    have hmark := Nested.mark_eq_of_shown (mem_tags hproper.1.allowed)
      (mem_tags hproper'.1.allowed) (Nested.shown_line hproper.1) hshown
    rw [List.map_cons, List.map_cons, hmark, ih hproper.2 hproper'.2 hlines.symm]

/-- **The outline of octets that are decoded as rules**, drawn up by any reader that shows all data
objects, has a line for each of them, in the order of the listing, which is the only one: indented
by its depth, with its tag and, unless it holds objects, the digits of its value.  Nothing is found
under a tag just if no object has it; otherwise it is the value of the first object that has it, if
this one holds no objects.  If it does, a reader that hides what is inside finds it empty.
Different octets have different outlines. -/
theorem outline_of_decode {reader : Bytes → Except Flaw (List Entry)}
    (hreader : ReadsObjects reader) {octets : Bytes} {rules : List Rule}
    (h : Canonical.decode octets = .ok rules) :
    ∃ objects, Listing isContainer 0 octets objects ∧
      (∀ others, Listing isContainer 0 octets others → others = objects) ∧
      (∀ object ∈ objects, object.tag ∈ tagsAt object.depth) ∧
      renderBy reader octets =
        .ok (String.join (objects.map fun object => object.line ++ "\n")) ∧
      (∀ object ∈ objects, Text.IsLine object.line ∧ object.Shown object.line) ∧
      (∀ tag : Int, findBy? reader octets tag = .ok none ↔
        ∀ object ∈ objects, (object.tag : Int) ≠ tag) ∧
      (∀ (tag : Int) (object : Nested),
        (objects.find? fun object => object.tag = tag) = some object →
          (isContainer object.tag = false →
            findBy? reader octets tag = .ok (some object.value)) ∧
          (HidesNested reader → isContainer object.tag = true →
            findBy? reader octets tag = .ok (some []))) ∧
      ∀ other others, Canonical.decode other = .ok others →
        renderBy reader other = renderBy reader octets → other = octets := by
  obtain ⟨objects, hlisting, hproper⟩ := listsProper_of_decode h
  refine ⟨objects, hlisting, fun others hothers => hothers.unique hlisting,
    fun object hmem => (hproper object hmem).allowed,
    renderBy_of_proper hreader hlisting hproper, fun object hmem => ?_, fun tag => ?_,
    fun tag object hobject => ⟨fun hclosed => ?_, fun hhides hopened => ?_⟩,
    fun other others hother heq => ?_⟩
  · exact ⟨(Nested.isPlain_line (hproper object hmem)).isLine,
      Nested.shown_line (hproper object hmem)⟩
  · have hnone : (objects.find? fun object => object.tag = tag) = none ↔
        ∀ object ∈ objects, (object.tag : Int) ≠ tag := by
      rw [List.find?_eq_none]
      simp only [decide_eq_true_eq, ne_eq]
    rw [← hnone]
    constructor
    · intro hfound
      refine Option.eq_none_iff_forall_ne_some.mpr fun object hobject => ?_
      obtain ⟨value, hvalue, -⟩ := findBy?_of_some hreader hlisting hproper hobject
      rw [hvalue] at hfound
      cases hfound
    · exact findBy?_of_none hreader hlisting hproper
  · obtain ⟨value, hfound, hvalue, -⟩ := findBy?_of_some hreader hlisting hproper hobject
    rw [hfound, hvalue hclosed]
  · obtain ⟨value, hfound, -, hempty⟩ := findBy?_of_some hreader hlisting hproper hobject
    rw [hfound, hempty hhides hopened]
  · obtain ⟨objects', hlisting', hproper'⟩ := listsProper_of_decode hother
    exact eq_of_renderBy_eq hreader hlisting' hlisting hproper' hproper heq

/-- A rule that allows NFC events for all applications. -/
def nfcRule : Bytes := [0xe2, 11, 0xe1, 4, 0xc0, 0, 0xc1, 0, 0xe3, 3, 0xd1, 1, 1]

/-- The data objects of this rule. -/
def nfcObjects : List Nested :=
  [⟨0, 0xe2, [0xe1, 4, 0xc0, 0, 0xc1, 0, 0xe3, 3, 0xd1, 1, 1]⟩,
    ⟨1, 0xe1, [0xc0, 0, 0xc1, 0]⟩, ⟨2, 0xc0, []⟩, ⟨2, 0xc1, []⟩,
    ⟨1, 0xe3, [0xd1, 1, 1]⟩, ⟨2, 0xd1, [1]⟩]

/-- The rule keeps to the limits, so it is read back from its encoding. -/
theorem decode_nfcRule :
    Canonical.decode nfcRule = .ok [⟨⟨.any, [], none⟩, { nfc := some .always }⟩] := by
  refine Canonical.decode_of_encode (List.forall_mem_singleton.mpr ?_) rfl
  exact ⟨⟨trivial, List.mem_cons_self, nofun⟩, ⟨nofun, nofun, nofun⟩⟩

/-- Its objects are read one by one. -/
theorem listing_nfcRule : Listing isContainer 0 nfcRule nfcObjects := by
  have hreference : Listing isContainer 2 [0xc0, 0, 0xc1, 0] [⟨2, 0xc0, []⟩, ⟨2, 0xc1, []⟩] :=
    .primitive (show Tlv.readElement _ = .ok (⟨0xc0, [], 0, 2⟩, [0xc1, 0]) from rfl) rfl
      (.primitive (show Tlv.readElement _ = .ok (⟨0xc1, [], 0, 2⟩, []) from rfl) rfl .nil)
  have haccess : Listing isContainer 2 [0xd1, 1, 1] [⟨2, 0xd1, [1]⟩] :=
    .primitive (show Tlv.readElement _ = .ok (⟨0xd1, [1], 0, 3⟩, []) from rfl) rfl .nil
  exact .container
    (show Tlv.readElement nfcRule = .ok (⟨0xe2, nfcRule.drop 2, 0, 13⟩, []) from rfl) rfl
    (.container (show Tlv.readElement _ = .ok (⟨0xe1, [0xc0, 0, 0xc1, 0], 0, 6⟩, _) from rfl) rfl
      hreference
      (.container (show Tlv.readElement _ = .ok (⟨0xe3, [0xd1, 1, 1], 0, 5⟩, []) from rfl) rfl
        haccess .nil)) .nil

/-- Six lines, of which three have a value, or say that there is none. -/
theorem outline_of_decode_nfcRule :
    ReadsObjects entries ∧ HidesNested entries ∧
    render nfcRule = .ok (
      "E2 (REF_AR_DO):\n  E1 (REF_DO):\n    C0 (AID_REF_EMPTY_DO): (empty)\n" ++
      "    C1 (DEV_APP_ID_REF_DO): (empty)\n  E3 (AR_DO):\n    D1 (NFC_AR_DO): 01 (always)\n") ∧
    find? nfcRule 0xd1 = .ok (some [1]) ∧ find? nfcRule 0xe3 = .ok (some []) ∧
    find? nfcRule 0xdb = .ok none := by
  obtain ⟨objects, -, hunique, -, hrender, -, hnone, hfind, -⟩ :=
    outline_of_decode readsObjects_entries decode_nfcRule
  obtain rfl := hunique _ listing_nfcRule
  refine ⟨readsObjects_entries, hidesNested_entries, hrender.trans ?_,
    (hfind 0xd1 ⟨2, 0xd1, [1]⟩ rfl).1 rfl,
    (hfind 0xe3 ⟨1, 0xe3, [0xd1, 1, 1]⟩ rfl).2 hidesNested_entries rfl,
    (hnone 0xdb).mpr (by decide)⟩
  decide +kernel

/-- What is found under the tag of a rule is empty, though the rule has a value, by a reader that
shows all data objects and hides the values of those that nest. -/
theorem find?_rule_empty :
    ReadsObjects entries ∧ HidesNested entries ∧
    Canonical.decode nfcRule = .ok [⟨⟨.any, [], none⟩, { nfc := some .always }⟩] ∧
    Listing isContainer 0 nfcRule nfcObjects ∧
    (nfcObjects.find? fun object => object.tag = Objects.rule).map Nested.value =
      some [0xe1, 4, 0xc0, 0, 0xc1, 0, 0xe3, 3, 0xd1, 1, 1] ∧
    find? nfcRule Objects.rule = .ok (some []) := by
  refine ⟨readsObjects_entries, hidesNested_entries, decode_nfcRule, listing_nfcRule, rfl, ?_⟩
  obtain ⟨objects, hlisting, hproper⟩ := listsProper_of_decode decode_nfcRule
  obtain rfl := hlisting.unique listing_nfcRule
  have hfirst : (nfcObjects.find? fun object => (object.tag : Int) = Objects.rule) =
      some ⟨0, 0xe2, [0xe1, 4, 0xc0, 0, 0xc1, 0, 0xe3, 3, 0xd1, 1, 1]⟩ := rfl
  obtain ⟨value, hfound, -, hempty⟩ := findBy?_of_some readsObjects_entries hlisting hproper hfirst
  rw [find?, hfound, hempty hidesNested_entries rfl]

end AccessRules.Outline
