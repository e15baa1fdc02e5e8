import Mathlib.Data.List.Forall2
import AccessRules.Outline.Basic
import AccessRules.Proofs.Outline.Reading
import AccessRules.Rule.Objects

/-!
# Listings of nested data objects

What the strict reader finds in octets: each object in front of the objects inside it, and those in
front of the objects behind it.

1. **Listings** — the objects are read one behind the other, and inside an object if its tag is one
   that nests (`Listing`), so octets have at most one listing (`Listing.unique`).  Which tags nest
   matters for the tags of the listing only (`Listing.congr`).

2. **What is shown determines the octets** — in rules, references and access rules there are objects
   and nothing else.  The depth, the tag and the content of an object are its mark.  The
   objects inside a container are all that are deeper than it before the next that is not
   (`Listing.shallow_append`), so the marks of a listing have one reading
   (`Listing.eq_of_marks_append`), and two octet strings whose listings have the same marks are one
   (`Listing.eq_of_marks`).

3. **Readers** — a reader of outlines need not check anything, but on octets that the strict reader
   would read it shows these objects, if tags say of themselves whether they nest (`ReadsObjects`),
   and it may show the value of an object that nests by the objects inside it only (`HidesNested`).
   The reader of this library does both (`readsObjects_entries`, `hidesNested_entries`), by
   induction on the listing with what stands in front of the octets generalised
   (`entriesFrom_of_listing`).
-/

namespace AccessRules.Outline

/-! ## Listings -/

/-- A data object among those around and inside it. -/
structure Nested where
  depth : Nat
  tag : Nat
  value : Bytes
  deriving DecidableEq, Repr

/-- `Listing nests depth octets objects` — `octets` are data objects at `depth`, and these are
`objects`, each with those inside it behind it if its tag nests. -/
inductive Listing (nests : Nat → Bool) : Nat → Bytes → List Nested → Prop
  | nil {depth : Nat} : Listing nests depth [] []
  | primitive {depth : Nat} {octets rest : Bytes} {element : Tlv.Element} {others : List Nested}
      (read : Tlv.readElement octets = .ok (element, rest))
      (closed : nests element.tag = false) (behind : Listing nests depth rest others) :
      Listing nests depth octets (⟨depth, element.tag, element.value⟩ :: others)
  | container {depth : Nat} {octets rest : Bytes} {element : Tlv.Element}
      {inner others : List Nested} (read : Tlv.readElement octets = .ok (element, rest))
      (opened : nests element.tag = true)
      (inside : Listing nests (depth + 1) element.value inner)
      (behind : Listing nests depth rest others) :
      Listing nests depth octets (⟨depth, element.tag, element.value⟩ :: (inner ++ others))

section Listing

variable {nests : Nat → Bool} {depth : Nat} {octets : Bytes} {objects : List Nested}

/-- Octets have one listing. -/
theorem Listing.unique {objects' : List Nested} (h : Listing nests depth octets objects)
    (h' : Listing nests depth octets objects') : objects = objects' := by
  induction h generalizing objects' with
  | nil =>
    cases h' with
    | nil => rfl
    | primitive read _ _ | container read _ _ _ => cases read
  | primitive read closed _ ih =>
    cases h' with
    | nil => cases read
    | primitive read' _ behind' =>
      cases read.symm.trans read'
      rw [ih behind']
    | container read' opened' _ _ =>
      cases read.symm.trans read'
      cases closed.symm.trans opened'
  | container read opened _ _ ihInside ihBehind =>
    cases h' with
    | nil => cases read
    | primitive read' closed' _ =>
      cases read.symm.trans read'
      cases opened.symm.trans closed'
    | container read' _ inside' behind' =>
      cases read.symm.trans read'
      rw [ihInside inside', ihBehind behind']

/-- A listing depends on which of its own tags nest. -/
theorem Listing.congr {nests' : Nat → Bool} (h : Listing nests depth octets objects)
    (hsame : ∀ object ∈ objects, nests' object.tag = nests object.tag) :
    Listing nests' depth octets objects := by
  induction h with
  | nil => exact .nil
  | primitive read closed _ ih =>
    obtain ⟨hfirst, hrest⟩ := List.forall_mem_cons.mp hsame
    exact .primitive read (hfirst.trans closed) (ih hrest)
  | container read opened _ _ ihInside ihBehind =>
    obtain ⟨hfirst, hrest⟩ := List.forall_mem_cons.mp hsame
    obtain ⟨hinside, hbehind⟩ := List.forall_mem_append.mp hrest
    exact .container read (hfirst.trans opened) (ihInside hinside) (ihBehind hbehind)

/-- There are no objects in no octets only. -/
theorem Listing.isEmpty_eq (h : Listing nests depth octets objects) :
    objects.isEmpty = octets.isEmpty := by
  cases h with
  | nil => rfl
  | primitive read | container read =>
    have hlt := Tlv.length_lt_of_readElement read
    rw [List.isEmpty_cons, List.isEmpty_eq_false_iff.mpr]
    exact List.ne_nil_of_length_pos (by omega)

end Listing

/-! ## What is shown determines the octets -/

/-- Whether the data objects with a tag hold data objects: rules and their two halves do. -/
def isContainer (tag : Nat) : Bool := tag ∈ [Objects.rule, Objects.reference, Objects.access]

/-- The octets of an object that are not in the objects inside it. -/
def Nested.content (object : Nested) : Bytes :=
  if isContainer object.tag then [] else object.value

/-- What is shown of an object in its own place. -/
def Nested.mark (object : Nested) : Nat × Nat × Bytes :=
  (object.depth, object.tag, object.content)

/-- `Shallow depth objects` — the first of the objects, if there is one, is above `depth`. -/
def Shallow (depth : Nat) (objects : List Nested) : Prop :=
  ∀ object ∈ objects.head?, object.depth < depth

/-- What follows the objects inside a container is above them. -/
theorem Listing.shallow_append {nests : Nat → Bool} {depth : Nat} {octets : Bytes}
    {objects others : List Nested} (h : Listing nests depth octets objects)
    (hothers : Shallow depth others) :
    Shallow (depth + 1) (objects ++ others) := by
  cases h with
  | nil =>
    intro object hhead
    exact Nat.lt_succ_of_lt (hothers object hhead)
  | primitive _ _ _ =>
    intro object hhead
    obtain rfl := Option.some.inj hhead
    exact Nat.lt_succ_self _
  | container _ _ _ _ =>
    intro object hhead
    obtain rfl := Option.some.inj hhead
    exact Nat.lt_succ_self _

/-- The first mark of shallow objects is one of an object above the level. -/
theorem Shallow.lt_of_marks {depth : Nat} {others : List Nested} {object : Nested}
    {marks : List (Nat × Nat × Bytes)} (h : Shallow depth others)
    (heq : others.map Nested.mark = object.mark :: marks) : object.depth < depth := by
  obtain ⟨first, _, rfl, hmark, -⟩ := List.map_eq_cons_iff.mp heq
  have hdepth : first.depth = object.depth := congrArg Prod.fst hmark
  rw [← hdepth]
  exact h first rfl

/-- The strict reader reads an object from its encoding only. -/
theorem eq_of_readElement {octets octets' rest rest' : Bytes} {element element' : Tlv.Element}
    (h : Tlv.readElement octets = .ok (element, rest))
    (h' : Tlv.readElement octets' = .ok (element', rest')) (htag : element.tag = element'.tag)
    (hvalue : element.value = element'.value) (hrest : rest = rest') : octets = octets' := by
  obtain ⟨written, hwritten, rfl, -, -⟩ := Tlv.readElement_eq_ok_iff.mp h
  obtain ⟨written', hwritten', rfl, -, -⟩ := Tlv.readElement_eq_ok_iff.mp h'
  rw [htag, hvalue, hwritten'] at hwritten
  rw [Except.ok.inj hwritten, hrest]

/-- Marks show where a level ends, whatever stands above it behind the level. -/
theorem Listing.eq_of_marks_append {depth : Nat} {octets octets' : Bytes}
    {objects objects' others others' : List Nested}
    (h : Listing isContainer depth octets objects)
    (h' : Listing isContainer depth octets' objects') (hothers : Shallow depth others)
    (hothers' : Shallow depth others')
    (heq : (objects ++ others).map Nested.mark = (objects' ++ others').map Nested.mark) :
    octets = octets' ∧ others.map Nested.mark = others'.map Nested.mark := by
  induction h generalizing octets' objects' others others' with
  | nil =>
    cases h' with
    | nil => exact ⟨rfl, heq⟩
    | primitive | container => exact absurd (hothers.lt_of_marks heq) (Nat.lt_irrefl _)
  | @primitive _ _ _ element _ read closed behind ih =>
    cases h' with
    | nil => exact absurd (hothers'.lt_of_marks heq.symm) (Nat.lt_irrefl _)
    | @primitive _ _ _ element' _ read' closed' behind' =>
      obtain ⟨hmark, hbehind⟩ := List.cons.inj heq
      have htag : element.tag = element'.tag := congrArg (fun mark => mark.2.1) hmark
      have hcontent := congrArg (fun mark => mark.2.2) hmark
      simp only [Nested.mark, Nested.content, closed, closed'] at hcontent
      obtain ⟨hrest, hmarks⟩ := ih behind' hothers hothers' hbehind
      exact ⟨eq_of_readElement read read' htag hcontent hrest, hmarks⟩
    | @container _ _ _ element' _ _ read' opened' inside' behind' =>
      have htag : element.tag = element'.tag :=
        congrArg (fun mark => mark.2.1) (List.cons.inj heq).1
      rw [htag, opened'] at closed
      cases closed
  | @container _ _ _ element _ _ read opened inside behind ihInside ihBehind =>
    cases h' with
    | nil => exact absurd (hothers'.lt_of_marks heq.symm) (Nat.lt_irrefl _)
    | @primitive _ _ _ element' _ read' closed' behind' =>
      have htag : element.tag = element'.tag :=
        congrArg (fun mark => mark.2.1) (List.cons.inj heq).1
      rw [htag, closed'] at opened
      cases opened
    | @container _ _ _ element' _ _ read' opened' inside' behind' =>
      rw [List.cons_append, List.cons_append, List.append_assoc, List.append_assoc] at heq
      obtain ⟨hmark, hbehind⟩ := List.cons.inj heq
      have htag : element.tag = element'.tag := congrArg (fun mark => mark.2.1) hmark
      obtain ⟨hvalue, hbehind⟩ := ihInside inside' (behind.shallow_append hothers)
        (behind'.shallow_append hothers') hbehind
      obtain ⟨hrest, hmarks⟩ := ihBehind behind' hothers hothers' hbehind
      exact ⟨eq_of_readElement read read' htag hvalue hrest, hmarks⟩

/-- Octets are known again from the marks of their listing. -/
theorem Listing.eq_of_marks {depth : Nat} {octets octets' : Bytes}
    {objects objects' : List Nested} (h : Listing isContainer depth octets objects)
    (h' : Listing isContainer depth octets' objects')
    (heq : objects.map Nested.mark = objects'.map Nested.mark) : octets = octets' := by
  have hnone : Shallow depth [] := nofun
  refine (h.eq_of_marks_append h' hnone hnone ?_).1
  rwa [List.append_nil, List.append_nil]

/-! ## Readers -/

/-- `Agrees object entry` — the entry is what a reader shows of the object, if the tag says of
itself whether it nests.  Nothing is said of what the entry has as the value of an object that
nests. -/
structure Agrees (object : Nested) (entry : Entry) : Prop where
  depth : entry.depth = object.depth
  tag : entry.tag = object.tag
  isParent : entry.isParent = (holdsObjects object.tag && !object.value.isEmpty)
  value : holdsObjects object.tag = false → entry.value = object.value

/-- `ReadsObjects reader` — of octets that are data objects with tags of one octet, the reader shows
each object in the order of the listing.  Whether such an object nests is said by bit 5 of its tag
(`holdsObjects_eq_testBit`). -/
def ReadsObjects (reader : Bytes → Except Flaw (List Entry)) : Prop :=
  ∀ octets objects, Listing holdsObjects 0 octets objects →
    (∀ object ∈ objects, object.tag < 0x100) →
      ∃ found, reader octets = .ok found ∧ List.Forall₂ Agrees objects found

/-- `HidesNested reader` — of such octets, the reader shows no value of an object that nests: all of
it is in the entries of the objects inside. -/
def HidesNested (reader : Bytes → Except Flaw (List Entry)) : Prop :=
  ∀ octets objects, Listing holdsObjects 0 octets objects →
    (∀ object ∈ objects, object.tag < 0x100) →
      ∀ found, reader octets = .ok found → ∀ entry ∈ found, ∀ tag : Nat, entry.tag = tag →
        holdsObjects tag = true → entry.value = []

/-- The entry of an object in an outline. -/
def Nested.entry (object : Nested) : Entry :=
  ⟨object.depth, object.tag, if holdsObjects object.tag then [] else object.value,
    holdsObjects object.tag && !object.value.isEmpty⟩

/-- The entry of an object agrees with it. -/
theorem Nested.agrees_entry (object : Nested) : Agrees object object.entry :=
  ⟨rfl, rfl, rfl, fun hclosed => if_neg (by rw [hclosed]; exact Bool.false_ne_true)⟩

/-- The outline of octets with a listing has an entry for each object. -/
theorem entriesFrom_of_listing {depth : Nat} {octets : Bytes} {objects : List Nested}
    (h : Listing holdsObjects depth octets objects) (front : Bytes) (budget : Nat)
    (hbudget : octets.length ≤ budget) :
    entriesFrom depth (front ++ octets) budget front.length = .ok (objects.map Nested.entry) := by
  induction h generalizing front budget with
  | nil =>
    rw [List.append_nil]
    exact entriesFrom_nil _ budget front
  | @primitive depth _ rest element others read closed behind ih =>
    have hlt := Tlv.length_lt_of_readElement read
    obtain ⟨budget, rfl⟩ : ∃ less, budget = less + 1 := ⟨budget - 1, by omega⟩
    obtain ⟨written, hwritten, rfl, -⟩ := Tlv.readElement_eq_ok_iff.mp read
    have hbehind := ih (front ++ written) budget (by omega)
    rw [List.append_assoc] at hbehind
    rw [entriesFrom_append hwritten, closed, hbehind]
    simp [Nested.entry, closed, Except.bind, Except.map]
  | @container depth _ rest element inner others read opened inside behind ihInside ihBehind =>
    have hlt := Tlv.length_lt_of_readElement read
    obtain ⟨budget, rfl⟩ : ∃ less, budget = less + 1 := ⟨budget - 1, by omega⟩
    obtain ⟨written, hwritten, rfl, -⟩ := Tlv.readElement_eq_ok_iff.mp read
    -- the objects inside are read by themselves, as octets with nothing in front
    have hinside : entriesFrom (depth + 1) element.value element.value.length 0 =
        .ok (inner.map Nested.entry) := ihInside [] _ (Nat.le_refl _)
    have hbehind := ihBehind (front ++ written) budget (by omega)
    have hempty := inside.isEmpty_eq
    rw [List.append_assoc] at hbehind
    rw [entriesFrom_append hwritten, opened, if_pos rfl, hinside, hbehind]
    simp [Nested.entry, opened, Except.bind, Except.map, hempty]

/-- The entries of octets with a listing, of any tags. -/
theorem entries_of_listing {octets : Bytes} {objects : List Nested}
    (h : Listing holdsObjects 0 octets objects) :
    entries octets = .ok (objects.map Nested.entry) :=
  entriesFrom_of_listing h [] _ (Nat.le_refl _)

/-- The reader of this library shows all data objects. -/
theorem readsObjects_entries : ReadsObjects entries := by
  intro octets objects h _
  refine ⟨_, entries_of_listing h, ?_⟩
  rw [List.forall₂_map_right_iff]
  exact List.forall₂_same.mpr fun object _ => object.agrees_entry

/-- The reader of this library shows what is in a data object that nests inside it only. -/
theorem hidesNested_entries : HidesNested entries := by
  intro octets objects h _ found hfound entry hmem tag htag hnests
  obtain rfl := Except.ok.inj ((entries_of_listing h).symm.trans hfound)
  obtain ⟨object, -, rfl⟩ := List.mem_map.mp hmem
  obtain rfl : object.tag = tag := Int.ofNat.inj htag
  exact if_pos hnests

end AccessRules.Outline
