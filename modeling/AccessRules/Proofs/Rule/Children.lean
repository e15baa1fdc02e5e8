import AccessRules.Proofs.Tlv.Element
import AccessRules.Rule.Decode

/-!
# The children of a container

A container is read as a table: its children are objects with distinct tags, each of them a tag that
the container may hold, and from then on they are only looked up by tag.

1. **Tables** — `Container.Holds` says which rows of objects a container accepts.  Two rows that it
   accepts are the same up to order exactly if looking up a tag finds the same in both
   (`perm_of_lookup_eq`, `lookup_eq_of_perm`).  This is where the order of children is lost.

2. **Reading** — the children of an object are read exactly if its value is the encoding of a row
   that the container accepts (`childrenIn_eq_ok_iff`).

3. **Looking up** — `child?`, `childOr` and `readChild` see the row only through the values that
   look-up finds; where the children stand plays no part in whether they are read.
-/

namespace AccessRules

/-! ## Rows with distinct tags -/

/-- `container.Holds objects` — no tag occurs twice in the row, and the container may hold every
    one. -/
structure Container.Holds (container : Container) (objects : List (Nat × Bytes)) : Prop where
  distinct : (objects.map Prod.fst).Nodup
  allowed : ∀ object ∈ objects, object.1 ∈ container.allowed

/-- Objects with distinct tags are distinct. -/
theorem Container.Holds.nodup {container : Container} {objects : List (Nat × Bytes)}
    (h : container.Holds objects) : objects.Nodup :=
  List.Pairwise.of_map Prod.fst (fun _ _ hne heq => hne (congrArg Prod.fst heq)) h.distinct

/-- Among distinct tags, looking one up finds the object that has it. -/
theorem lookup_eq_some_iff_mem {objects : List (Nat × Bytes)}
    (h : (objects.map Prod.fst).Nodup) {tag : Nat} {value : Bytes} :
    objects.lookup tag = some value ↔ (tag, value) ∈ objects := by
  induction objects with
  | nil => simp
  | cons object objects ih =>
    obtain ⟨first, found⟩ := object
    rw [List.map_cons, List.nodup_cons] at h
    obtain ⟨hfirst, hrest⟩ := h
    rw [List.lookup_cons, List.mem_cons, Prod.mk.injEq]
    by_cases htag : tag = first
    · subst htag
      rw [beq_self_eq_true]
      show some found = some value ↔ _
      constructor
      · intro hvalue
        exact Or.inl ⟨rfl, (Option.some.inj hvalue).symm⟩
      · rintro (⟨-, hvalue⟩ | hmem)
        · exact congrArg some hvalue.symm
        · -- a second object with the tag of the first one would repeat it
          exact absurd (List.mem_map_of_mem hmem) hfirst
    · rw [beq_false_of_ne htag]
      show objects.lookup tag = some value ↔ _
      rw [ih hrest]
      constructor
      · exact Or.inr
      · rintro (⟨heq, -⟩ | hmem)
        · exact absurd heq htag
        · exact hmem

/-- Looking up does not see the order. -/
theorem lookup_eq_of_perm {objects others : List (Nat × Bytes)}
    (h : (objects.map Prod.fst).Nodup) (hperm : objects.Perm others) (tag : Nat) :
    objects.lookup tag = others.lookup tag := by
  have h' : (others.map Prod.fst).Nodup := (hperm.map Prod.fst).nodup h
  apply Option.ext
  intro value
  rw [lookup_eq_some_iff_mem h, lookup_eq_some_iff_mem h', hperm.mem_iff]

/-- The order is all that looking up does not see. -/
theorem perm_of_lookup_eq {container : Container} {objects others : List (Nat × Bytes)}
    (h : container.Holds objects) (h' : container.Holds others)
    (heq : ∀ tag ∈ container.allowed, objects.lookup tag = others.lookup tag) :
    objects.Perm others := by
  refine (List.perm_ext_iff_of_nodup h.nodup h'.nodup).mpr fun object => ?_
  obtain ⟨tag, value⟩ := object
  constructor
  · intro hmem
    rw [← lookup_eq_some_iff_mem h'.distinct, ← heq tag (h.allowed _ hmem)]
    exact (lookup_eq_some_iff_mem h.distinct).mpr hmem
  · intro hmem
    rw [← lookup_eq_some_iff_mem h.distinct, heq tag (h'.allowed _ hmem)]
    exact (lookup_eq_some_iff_mem h'.distinct).mpr hmem

/-- What a container may hold does not depend on the order. -/
theorem Container.Holds.of_perm {container : Container} {objects others : List (Nat × Bytes)}
    (h : container.Holds objects) (hperm : objects.Perm others) : container.Holds others :=
  ⟨(hperm.map Prod.fst).nodup h.distinct, fun object hmem =>
    h.allowed object (hperm.mem_iff.mpr hmem)⟩

/-! ## Reading the children -/

/-- The tags and the values of children. -/
def childObjects (children : List (Placed Tlv.Element)) : List (Nat × Bytes) :=
  children.map fun child => child.item.object

theorem childObjects_cons (child : Placed Tlv.Element) (children : List (Placed Tlv.Element)) :
    childObjects (child :: children) = child.item.object :: childObjects children := rfl

/-- No tag is repeated if the tags are distinct and none was seen before. -/
theorem firstRepeated_eq_none_iff {seen : List Nat} {children : List (Placed Tlv.Element)} :
    firstRepeated seen children = none ↔
      ((childObjects children).map Prod.fst).Nodup ∧
        ∀ object ∈ childObjects children, object.1 ∉ seen := by
  -- the tags seen grow along the row, so the statement is about any list of them
  induction children generalizing seen with
  | nil => exact ⟨fun _ => ⟨List.nodup_nil, nofun⟩, fun _ => rfl⟩
  | cons child children ih =>
    rw [firstRepeated, childObjects_cons, List.map_cons, List.nodup_cons, List.forall_mem_cons]
    split
    · rename_i hseen
      exact ⟨nofun, fun h => absurd hseen h.2.1⟩
    · rename_i hnew
      rw [ih]
      constructor
      · rintro ⟨hdistinct, hunseen⟩
        -- the first tag is seen from here on, so it is not among the others
        refine ⟨⟨?_, hdistinct⟩, hnew, ?_⟩
        · intro hmem
          obtain ⟨object, hobject, htag⟩ := List.mem_map.mp hmem
          exact hunseen object hobject (htag ▸ List.mem_cons_self)
        · intro object hobject
          exact fun hmem => hunseen object hobject (List.mem_cons_of_mem _ hmem)
      · rintro ⟨⟨hother, hdistinct⟩, -, hunseen⟩
        refine ⟨hdistinct, fun object hobject hmem => ?_⟩
        rcases List.mem_cons.mp hmem with heq | hmem
        · have htag : child.item.tag ∈ (childObjects children).map Prod.fst :=
            heq ▸ List.mem_map_of_mem hobject
          exact hother htag
        · exact hunseen object hobject hmem

/-- The place of every child of an object. -/
def placedIn (parent : Placed Tlv.Element) (elements : List Tlv.Element) :
    List (Placed Tlv.Element) :=
  elements.map fun element => ⟨element, parent.inValue element.offset⟩

/-- Where children are does not change their tags and values. -/
theorem childObjects_placedIn (parent : Placed Tlv.Element) (elements : List Tlv.Element) :
    childObjects (placedIn parent elements) = elements.map Tlv.Element.object := by
  rw [childObjects, placedIn, List.map_map]
  rfl

/-- The children of a data object are what its value is decoded as, if no tag comes twice. -/
theorem childrenOf_eq_ok_iff {parent : Placed Tlv.Element}
    {children : List (Placed Tlv.Element)} :
    childrenOf parent = .ok children ↔
      (∃ elements, Tlv.decode parent.item.value = .ok elements ∧
        children = placedIn parent elements) ∧
      ((childObjects children).map Prod.fst).Nodup := by
  simp only [childrenOf, bind_eq_ok_iff, mapError_eq_ok_iff]
  constructor
  · rintro ⟨elements, hdecode, h⟩
    split at h
    · cases h
    · rename_i hnone
      obtain rfl := Except.ok.inj h
      exact ⟨⟨elements, hdecode, rfl⟩, (firstRepeated_eq_none_iff.mp hnone).1⟩
  · rintro ⟨⟨elements, hdecode, rfl⟩, hdistinct⟩
    have hnone : firstRepeated [] (placedIn parent elements) = none :=
      firstRepeated_eq_none_iff.mpr ⟨hdistinct, fun _ _ => List.not_mem_nil⟩
    refine ⟨elements, hdecode, ?_⟩
    rw [show elements.map (fun element => _) = placedIn parent elements from rfl, hnone]

/-- The children of an object are read if its value decodes to a row that the container accepts. -/
theorem childrenIn_eq_ok_iff {container : Container} {parent : Placed Tlv.Element}
    {children : List (Placed Tlv.Element)} :
    childrenIn container parent = .ok children ↔
      (∃ elements, Tlv.decode parent.item.value = .ok elements ∧
        children = placedIn parent elements) ∧
      container.Holds (childObjects children) := by
  simp only [childrenIn, bind_eq_ok_iff, childrenOf_eq_ok_iff]
  constructor
  · rintro ⟨found, ⟨helements, hdistinct⟩, h⟩
    split at h
    · cases h
    · -- no child is outside of what the container may hold
      rename_i hnone
      obtain rfl := Except.ok.inj h
      refine ⟨helements, hdistinct, fun object hmem => ?_⟩
      obtain ⟨child, hchild, rfl⟩ := List.mem_map.mp hmem
      simpa [Tlv.Element.object] using List.find?_eq_none.mp hnone child hchild
  · rintro ⟨helements, hdistinct, hallowed⟩
    refine ⟨children, ⟨helements, hdistinct⟩, ?_⟩
    have hnone : (children.find? fun child => child.item.tag ∉ container.allowed) = none :=
      List.find?_eq_none.mpr fun child hchild => by
        simpa [Tlv.Element.object] using hallowed _ (List.mem_map_of_mem hchild)
    rw [hnone]

/-- The value of an object whose children were read is the encoding of a row that the container
    accepts. -/
theorem encodeAll_of_childrenIn {container : Container} {parent : Placed Tlv.Element}
    {children : List (Placed Tlv.Element)} (h : childrenIn container parent = .ok children) :
    encodeAll (childObjects children) = .ok parent.item.value ∧
      container.Holds (childObjects children) := by
  obtain ⟨⟨elements, hdecode, rfl⟩, hholds⟩ := childrenIn_eq_ok_iff.mp h
  refine ⟨?_, hholds⟩
  rw [childObjects_placedIn]
  exact encodeAll_of_decodeFrom hdecode

/-- Children are read from the encoding of a row that the container accepts. -/
theorem childrenIn_of_encodeAll {container : Container} {parent : Placed Tlv.Element}
    {objects : List (Nat × Bytes)} (h : encodeAll objects = .ok parent.item.value)
    (hholds : container.Holds objects) :
    ∃ children, childrenIn container parent = .ok children ∧ childObjects children = objects := by
  obtain ⟨elements, hdecode, rfl⟩ := decodeFrom_of_encodeAll h 0
  refine ⟨placedIn parent elements, childrenIn_eq_ok_iff.mpr ⟨⟨elements, hdecode, rfl⟩, ?_⟩,
    childObjects_placedIn parent elements⟩
  rwa [childObjects_placedIn]

/-! ## Looking up -/

/-- What is found first with a tag has the value that look-up finds. -/
theorem find?_map_value {α : Type} (object : α → Nat × Bytes) (tag : Nat) (found : List α) :
    (found.find? fun a => (object a).1 == tag).map (fun a => (object a).2)
      = (found.map object).lookup tag := by
  induction found with
  | nil => rfl
  | cons first found ih =>
    rw [List.map_cons, List.find?_cons]
    cases hfirst : object first with
    | mk other value =>
      rw [List.lookup_cons]
      by_cases htag : other = tag
      · rw [htag, beq_self_eq_true tag]
        exact congrArg (fun object => some object.2) hfirst
      · have hne : (other == tag) = false := beq_false_of_ne htag
        have hne' : (tag == other) = false := beq_false_of_ne (Ne.symm htag)
        rw [hne, hne']
        exact ih

/-- The value of the first child with a tag is what look-up finds. -/
theorem child?_map_value (tag : Nat) (children : List (Placed Tlv.Element)) :
    (child? tag children).map (fun child => child.item.value)
      = (childObjects children).lookup tag :=
  find?_map_value (fun child => child.item.object) tag children

/-- A child that has to be there is read if it is. -/
theorem childOr_eq_ok_iff {flaw : Placed RuleFlaw} {tag : Nat}
    {children : List (Placed Tlv.Element)} {child : Placed Tlv.Element} :
    childOr flaw tag children = .ok child ↔ child? tag children = some child := by
  unfold childOr
  cases child? tag children with
  | none => exact ⟨nofun, nofun⟩
  | some found => rw [Except.ok.injEq, Option.some.injEq]

variable {α : Type}

/-- What is read from a child that may be missing stands in the same relation to the value that
    look-up finds as what is read from a child stands to its value. -/
theorem readChild_eq_ok_iff (written : Bytes → α → Prop)
    {read : Placed Tlv.Element → Except (Placed RuleFlaw) α}
    (hread : ∀ element a, read element = .ok a ↔ written element.item.value a)
    {tag : Nat} {children : List (Placed Tlv.Element)} {found : Option α} :
    readChild tag children read = .ok found ↔
      Option.Rel written ((childObjects children).lookup tag) found := by
  unfold readChild
  rw [← child?_map_value]
  -- a child that is not there is not read, and so nothing is asked of it
  cases child? tag children with
  | none =>
    constructor
    · intro h
      obtain rfl := Except.ok.inj h
      exact Option.Rel.none
    · rintro ⟨⟩
      rfl
  | some child =>
    rw [map_eq_ok_iff]
    constructor
    · rintro ⟨a, ha, rfl⟩
      exact Option.Rel.some ((hread child a).mp ha)
    · rintro (h | _)
      exact ⟨_, (hread child _).mpr h, rfl⟩

/-- A value that is written in one way only is the one that was written. -/
theorem rel_eq_iff {f : α → Bytes} {value : Option Bytes} {found : Option α} :
    Option.Rel (fun octets a => octets = f a) value found ↔ value = found.map f := by
  constructor
  · rintro (h | _)
    · exact congrArg some h
    · rfl
  · rintro rfl
    cases found with
    | none => exact Option.Rel.none
    | some a => exact Option.Rel.some rfl

/-- A value that is read in one way only is the one that is read. -/
theorem rel_map_iff {f : Bytes → α} {value : Option Bytes} {found : Option α} :
    Option.Rel (fun octets a => f octets = a) value found ↔ value.map f = found := by
  constructor
  · rintro (h | _)
    · exact congrArg some h
    · rfl
  · rintro rfl
    cases value with
    | none => exact Option.Rel.none
    | some octets => exact Option.Rel.some rfl

/-- A limit on what is written concerns a value that is there. -/
theorem rel_and_iff {written : Bytes → α → Prop} {valid : α → Prop} {value : Option Bytes}
    {found : Option α} :
    Option.Rel (fun octets a => written octets a ∧ valid a) value found ↔
      Option.Rel written value found ∧ ∀ a ∈ found, valid a := by
  constructor
  · rintro (h | _)
    · exact ⟨Option.Rel.some h.1, fun a hmem => Option.mem_some.mp hmem ▸ h.2⟩
    · exact ⟨Option.Rel.none, nofun⟩
  · rintro ⟨h | _, hvalid⟩
    · exact Option.Rel.some ⟨h, hvalid _ rfl⟩
    · exact Option.Rel.none

end AccessRules
