import AccessRules.Proofs.Rule.Children

/-!
# Flaws lie in the octets that were read

A flaw in an encoded rule is found up to three objects deep, at a place that is the sum of moves
over the objects around it.  None of the sums on the way to it leaves the octets.

1. **Data objects** — an object that was read, and a flaw that kept one from being read, lie between
   the two ends of the octets (`Laid.within`, `offset_of_decodeFrom_error`).

2. **Ways inside** — `Place.Within size` says that a place and every place on the way to it are from
   `0` to `size`.  What lies in the value of an object that lies in the octets lies in the octets
   (`Placed.Within.inValue`), so children lie where their parents do.

3. **Readers** — each reader of a rule names the place of an object that it was given, or a place
   in the value of one; `FailsWithin` is composed along the readers (`failsWithin_read`).

4. **Starts** — so a flaw is counted exactly from every start from which all of the octets are
   (`Rule.decodeAt_eq_shift`), and what was read, or the reason why nothing was, does not depend on
   the start at all (`Rule.reason_decodeAt`).
-/

namespace AccessRules

/-! ## Data objects -/

namespace Tlv

/-- A header fails in front of the tag or behind it. -/
theorem offset_of_readHeader_error {octets : Bytes} {flaw : Located Flaw}
    (h : readHeader octets = .error flaw) : 0 ≤ flaw.offset ∧ flaw.offset ≤ octets.length := by
  simp only [readHeader, bind_eq_error_iff, mapError_eq_error_iff, mapError_eq_ok_iff] at h
  rcases h with ⟨_, -, rfl⟩ | ⟨⟨tag, rest⟩, htag, ⟨_, -, rfl⟩ | ⟨_, -, h⟩⟩
  · show (0 : Int) ≤ 0 ∧ (0 : Int) ≤ octets.length
    omega
  · obtain ⟨rfl, -⟩ := readTag_eq_ok_iff.mp htag
    show (0 : Int) ≤ tag.length ∧ (tag.length : Int) ≤ (tag ++ rest).length
    rw [List.length_append]
    omega
  · cases h

/-- A data object fails inside of the octets that it is read from. -/
theorem offset_of_readElement_error {octets : Bytes} {flaw : Located Flaw}
    (h : readElement octets = .error flaw) : 0 ≤ flaw.offset ∧ flaw.offset ≤ octets.length := by
  simp only [readElement, bind_eq_error_iff] at h
  rcases h with h | ⟨⟨header, rest⟩, -, h⟩
  · exact offset_of_readHeader_error h
  · split at h
    · obtain rfl := Except.error.inj h
      show (0 : Int) ≤ 0 ∧ (0 : Int) ≤ octets.length
      omega
    · cases h

/-- A flaw in a row of objects lies in the row. -/
theorem offset_of_decodeFrom_error {start : Nat} {octets : Bytes} {flaw : Located Flaw}
    (h : decodeFrom start octets = .error flaw) :
    (start : Int) ≤ flaw.offset ∧ flaw.offset ≤ start + octets.length := by
  -- the rest of the row starts where the first object ends
  induction hsize : octets.length using Nat.strongRecOn generalizing start octets with
  | _ size ih =>
    obtain rfl := hsize
    rw [decodeFrom] at h
    split at h
    · cases h
    · split at h
      · rename_i front hread
        obtain rfl := Except.error.inj h
        have hfront := offset_of_readElement_error hread
        show (start : Int) ≤ start + front.offset ∧ start + front.offset ≤ _
        omega
      · rename_i element rest hread
        have hrest := ih rest.length (length_lt_of_readElement hread)
          (map_eq_error_iff.mp h) rfl
        obtain ⟨written, -, rfl, -, hwritten⟩ := readElement_eq_ok_iff.mp hread
        rw [List.length_append]
        omega

/-- An object of a row starts and ends in the row, and is no shorter than its value. -/
theorem Laid.within {start : Nat} {elements : List Element} {octets : Bytes}
    (h : Laid start elements octets) :
    ∀ element ∈ elements, (start : Int) ≤ element.offset ∧
      element.offset + element.size ≤ start + octets.length ∧
      element.value.length ≤ element.size := by
  induction elements generalizing start octets with
  | nil => exact nofun
  | cons first elements ih =>
    obtain ⟨written, rest, hwritten, rfl, hoffset, hsize, hrest⟩ := h
    intro element hmem
    rw [List.length_append]
    rcases List.mem_cons.mp hmem with rfl | hmem
    · obtain ⟨tag, length, -, -, rfl⟩ := encode_eq_ok_iff.mp hwritten
      rw [List.length_append, List.length_append] at *
      omega
    · have hin := ih hrest element hmem
      omega

end Tlv

/-! ## Ways inside -/

/-- `place.Within size` — the place, and every place on the way to it, is from `0` to `size`. -/
def Place.Within (size : Nat) (place : Place) : Prop :=
  ∀ way, way <+: place → 0 ≤ Place.offset way ∧ Place.offset way ≤ size

/-- A place that is reached in two parts is as far as both together. -/
theorem Place.offset_append (place further : Place) :
    Place.offset (place ++ further) = place.offset + further.offset := by
  induction place with
  | nil => exact (Int.zero_add _).symm
  | cons move place ih => rw [List.cons_append, Place.offset, Place.offset, ih, Int.add_assoc]

theorem Place.offset_singleton (move : Int) : Place.offset [move] = move := Int.add_zero move

theorem Place.within_nil (size : Nat) : Place.Within size [] := by
  intro way hway
  obtain rfl := List.prefix_nil.mp hway
  show (0 : Int) ≤ 0 ∧ (0 : Int) ≤ size
  omega

/-- The end of a way lies within what the way does. -/
theorem Place.Within.offset {size : Nat} {place : Place} (h : place.Within size) :
    0 ≤ place.offset ∧ place.offset ≤ size := h place (List.prefix_refl place)

/-- One more move stays inside if it leads to a place inside. -/
theorem Place.Within.concat {size : Nat} {place : Place} (h : place.Within size) {move : Int}
    (hmove : 0 ≤ place.offset + move ∧ place.offset + move ≤ size) :
    Place.Within size (place ++ [move]) := by
  intro way hway
  rcases List.prefix_concat_iff.mp hway with rfl | hshort
  · rwa [Place.offset_append, Place.offset_singleton]
  · exact h way hshort

/-- A single move ends within the size if it is no longer. -/
theorem Place.within_singleton {size : Nat} {move : Int} (h : 0 ≤ move ∧ move ≤ size) :
    Place.Within size [move] :=
  (Place.within_nil size).concat (by rwa [Place.offset, Int.zero_add])

/-- `element.Within size` — a data object that starts and ends in `size` octets. -/
structure Placed.Within (size : Nat) (element : Placed Tlv.Element) : Prop where
  place : element.place.Within size
  stop : element.place.offset + element.item.size ≤ size
  value : element.item.value.length ≤ element.item.size

/-- What is in the value of an object is where the object is. -/
theorem Placed.Within.inValue {size : Nat} {element : Placed Tlv.Element}
    (h : element.Within size) {offset : Int} (hoffset : 0 ≤ offset)
    (hstop : offset ≤ element.item.value.length) : (element.inValue offset).Within size := by
  obtain ⟨hplace, hend, hvalue⟩ := h
  have hstart := hplace.offset
  -- the way leads over the object to its end, back to the start of its value, and into it
  have hover : Place.Within size (element.place ++ [(element.item.size : Int)]) :=
    hplace.concat (by omega)
  have hback : Place.Within size
      (element.place ++ [(element.item.size : Int)] ++ [-(element.item.value.length : Int)]) :=
    hover.concat (by
      rw [Place.offset_append, Place.offset_singleton]
      omega)
  have hinto : Place.Within size
      (element.place ++ [(element.item.size : Int)] ++ [-(element.item.value.length : Int)]
        ++ [offset]) :=
    hback.concat (by
      simp only [Place.offset_append, Place.offset_singleton]
      omega)
  simp only [List.append_assoc, List.cons_append, List.nil_append] at hinto
  exact hinto

/-- A place in a value is so far behind the end of the header. -/
theorem Placed.offset_inValue (element : Placed Tlv.Element) (offset : Int) :
    (element.inValue offset).offset =
      element.place.offset + element.item.size - element.item.value.length + offset := by
  rw [Placed.inValue, Place.offset_append]
  simp only [Place.offset]
  omega

/-! ## Readers -/

/-- The object that repeats a tag is one of those that were looked through. -/
theorem mem_of_firstRepeated {seen : List Nat} {children : List (Placed Tlv.Element)}
    {child : Placed Tlv.Element} (h : firstRepeated seen children = some child) :
    child ∈ children := by
  induction children generalizing seen with
  | nil => cases h
  | cons first children ih =>
    rw [firstRepeated] at h
    split at h
    · obtain rfl := Option.some.inj h
      exact List.mem_cons_self
    · exact List.mem_cons_of_mem _ (ih h)

variable {size : Nat}

/-- The objects in the value of an object lie where it lies. -/
theorem within_placedIn {parent : Placed Tlv.Element} (hparent : parent.Within size)
    {elements : List Tlv.Element} (h : Tlv.decode parent.item.value = .ok elements) :
    ∀ child ∈ placedIn parent elements, child.Within size := by
  intro child hmem
  obtain ⟨element, helement, rfl⟩ := List.mem_map.mp hmem
  have hin := Tlv.Laid.within (Tlv.decodeFrom_eq_ok_iff.mp h) element helement
  refine ⟨hparent.inValue (by omega) (by omega), ?_, hin.2.2⟩
  have hend := hparent.stop
  rw [Placed.offset_inValue]
  show _ + (element.size : Int) ≤ _
  omega

/-- Children lie within what their parent lies in. -/
theorem within_of_childrenIn {container : Container} {parent : Placed Tlv.Element}
    (hparent : parent.Within size) {children : List (Placed Tlv.Element)}
    (h : childrenIn container parent = .ok children) : ∀ child ∈ children, child.Within size := by
  obtain ⟨⟨elements, hdecode, rfl⟩, -⟩ := childrenIn_eq_ok_iff.mp h
  exact within_placedIn hparent hdecode

/-- `FailsWithin size outcome` — a flaw lies in `size` octets. -/
def FailsWithin {α : Type} (size : Nat) (outcome : Except (Placed RuleFlaw) α) : Prop :=
  ∀ flaw, outcome = .error flaw → flaw.place.Within size

/-- Readers in a row fail within the octets if each of them does. -/
theorem FailsWithin.bind {α β : Type} {outcome : Except (Placed RuleFlaw) α}
    {next : α → Except (Placed RuleFlaw) β} (h : FailsWithin size outcome)
    (hnext : ∀ a, outcome = .ok a → FailsWithin size (next a)) :
    FailsWithin size (outcome >>= next) := by
  intro flaw hflaw
  rcases bind_eq_error_iff.mp hflaw with hflaw | ⟨a, ha, hflaw⟩
  · exact h flaw hflaw
  · exact hnext a ha flaw hflaw

theorem failsWithin_ok {α : Type} (a : α) : FailsWithin size (.ok a) := nofun

theorem failsWithin_error {α : Type} {flaw : Placed RuleFlaw} (h : flaw.place.Within size) :
    FailsWithin size (.error flaw : Except (Placed RuleFlaw) α) := by
  rintro _ ⟨⟩
  exact h

/-- A requirement fails at the place that it names. -/
theorem failsWithin_require {condition : Prop} [Decidable condition] {flaw : Placed RuleFlaw}
    (h : flaw.place.Within size) : FailsWithin size (require condition flaw) := by
  intro found hfound
  obtain ⟨-, rfl⟩ := require_eq_error_iff.mp hfound
  exact h

/-- Reading children fails in the value of their parent or at one of them. -/
theorem failsWithin_childrenIn (container : Container) {parent : Placed Tlv.Element}
    (hparent : parent.Within size) : FailsWithin size (childrenIn container parent) := by
  refine FailsWithin.bind (FailsWithin.bind ?_ ?_) ?_
  · intro flaw h
    obtain ⟨inner, hdecode, rfl⟩ := mapError_eq_error_iff.mp h
    -- a child that is cut off is as far in the value as decoding came
    have hin := Tlv.offset_of_decodeFrom_error hdecode
    exact hparent.inValue (by omega) (by omega)
  · intro elements h
    have hwithin := within_placedIn hparent (mapError_eq_ok_iff.mp h)
    dsimp only
    split
    · rename_i child hchild
      exact failsWithin_error (hwithin child (mem_of_firstRepeated hchild)).place
    · exact failsWithin_ok _
  · intro children h
    obtain ⟨⟨elements, hdecode, rfl⟩, -⟩ := childrenOf_eq_ok_iff.mp h
    have hwithin := within_placedIn hparent hdecode
    split
    · rename_i child hchild
      exact failsWithin_error (hwithin child (List.mem_of_find?_eq_some hchild)).place
    · exact failsWithin_ok _

/-- A child that is not there fails at the place of its parent. -/
theorem failsWithin_childOr {flaw : Placed RuleFlaw} (h : flaw.place.Within size) (tag : Nat)
    (children : List (Placed Tlv.Element)) : FailsWithin size (childOr flaw tag children) := by
  unfold childOr
  split
  · exact failsWithin_ok _
  · exact failsWithin_error h

/-- A child that is found is one of those that were read. -/
theorem mem_of_childOr {flaw : Placed RuleFlaw} {tag : Nat}
    {children : List (Placed Tlv.Element)} {child : Placed Tlv.Element}
    (h : childOr flaw tag children = .ok child) : child ∈ children := by
  unfold childOr at h
  split at h
  · rename_i found hfound
    obtain rfl := Except.ok.inj h
    exact List.mem_of_find?_eq_some hfound
  · cases h

/-- A child that need not be there fails where reading it does. -/
theorem failsWithin_readChild {α : Type} {tag : Nat} {children : List (Placed Tlv.Element)}
    {read : Placed Tlv.Element → Except (Placed RuleFlaw) α}
    (h : ∀ child ∈ children, FailsWithin size (read child)) :
    FailsWithin size (readChild tag children read) := by
  unfold readChild
  split
  · rename_i child hchild
    intro flaw hflaw
    exact h child (List.mem_of_find?_eq_some hchild) flaw (map_eq_error_iff.mp hflaw)
  · exact failsWithin_ok _

/-- A target fails at the object that stands for it, or where it would have been. -/
theorem failsWithin_readTarget {children : List (Placed Tlv.Element)} {place : Place}
    (hchildren : ∀ child ∈ children, child.Within size) (hplace : place.Within size) :
    FailsWithin size (readTarget children place) := by
  have hchild : ∀ {tag child}, child? tag children = some child → child.place.Within size :=
    fun h => (hchildren _ (List.mem_of_find?_eq_some h)).place
  unfold readTarget
  split
  · rename_i hany
    exact failsWithin_error (hchild hany)
  · rename_i hany
    split
    · exact failsWithin_ok _
    · exact failsWithin_error (hchild hany)
  · exact failsWithin_error hplace
  · rename_i haid _
    dsimp only
    split
    · exact failsWithin_error (hchild haid)
    · exact failsWithin_ok _

/-- The readers of an object without children say where the object is. -/
theorem failsWithin_readPackageName {element : Placed Tlv.Element}
    (h : element.Within size) : FailsWithin size (readPackageName element) := by
  unfold readPackageName
  dsimp only
  split
  · exact failsWithin_ok _
  · exact failsWithin_error h.place

/-- The access to commands fails at its own object. -/
theorem failsWithin_readApduAccess {element : Placed Tlv.Element} (h : element.Within size) :
    FailsWithin size (readApduAccess element) := by
  unfold readApduAccess
  split
  · split
    · exact failsWithin_ok _
    · exact failsWithin_error h.place
  · split
    · exact failsWithin_ok _
    · exact failsWithin_error h.place

/-- The access to events fails at its own object. -/
theorem failsWithin_readNfcAccess {element : Placed Tlv.Element} (h : element.Within size) :
    FailsWithin size (readNfcAccess element) := by
  unfold readNfcAccess
  split
  · split
    · exact failsWithin_ok _
    · exact failsWithin_error h.place
  · exact failsWithin_error h.place

/-- Carrier privileges fail at their own object. -/
theorem failsWithin_readPermissions {element : Placed Tlv.Element} (h : element.Within size) :
    FailsWithin size (readPermissions element) := by
  unfold readPermissions
  dsimp only
  split
  · exact failsWithin_ok _
  · exact failsWithin_error h.place

/-- A reference fails within the octets, part by part. -/
theorem failsWithin_readReferenceObject {element : Placed Tlv.Element}
    (h : element.Within size) : FailsWithin size (readReferenceObject element) := by
  refine (failsWithin_childrenIn .reference h).bind fun children hchildren => ?_
  have hwithin := within_of_childrenIn h hchildren
  refine (failsWithin_readTarget hwithin h.place).bind fun target _ => ?_
  refine (failsWithin_childOr h.place _ _).bind fun deviceApp hdeviceApp => ?_
  have hplace := (hwithin deviceApp (mem_of_childOr hdeviceApp)).place
  refine (failsWithin_require hplace).bind fun _ _ => ?_
  refine FailsWithin.bind (failsWithin_readChild fun child hmem => ?_) fun _ _ => failsWithin_ok _
  exact failsWithin_readPackageName (hwithin child hmem)

/-- An access fails within the octets, part by part. -/
theorem failsWithin_readAccessObject {element : Placed Tlv.Element}
    (h : element.Within size) : FailsWithin size (readAccessObject element) := by
  refine (failsWithin_childrenIn .access h).bind fun children hchildren => ?_
  have hwithin := within_of_childrenIn h hchildren
  refine (failsWithin_require h.place).bind fun _ _ => ?_
  refine FailsWithin.bind (failsWithin_readChild fun child hmem => ?_) fun _ _ => ?_
  · exact failsWithin_readApduAccess (hwithin child hmem)
  refine FailsWithin.bind (failsWithin_readChild fun child hmem => ?_) fun _ _ => ?_
  · exact failsWithin_readNfcAccess (hwithin child hmem)
  refine FailsWithin.bind (failsWithin_readChild fun child hmem => ?_) fun _ _ => failsWithin_ok _
  exact failsWithin_readPermissions (hwithin child hmem)

/-- The object in front of octets lies in them. -/
theorem within_of_readElement {octets rest : Bytes} {outer : Tlv.Element}
    (h : Tlv.readElement octets = .ok (outer, rest)) :
    Placed.Within octets.length ⟨outer, []⟩ := by
  obtain ⟨written, hwritten, rfl, -, hsize⟩ := Tlv.readElement_eq_ok_iff.mp h
  obtain ⟨tag, length, -, -, rfl⟩ := Tlv.encode_eq_ok_iff.mp hwritten
  refine ⟨Place.within_nil _, ?_, ?_⟩
  · show (0 : Int) + outer.size ≤ _
    rw [List.length_append]
    omega
  · show outer.value.length ≤ outer.size
    rw [hsize, List.length_append]
    omega

/-- A flaw in a rule, and every object on the way to it, lies in the octets. -/
theorem failsWithin_read (octets : Bytes) : FailsWithin octets.length (Rule.read octets) := by
  refine FailsWithin.bind ?_ fun ⟨outer, rest⟩ hread => ?_
  · intro flaw h
    obtain ⟨inner, hread, rfl⟩ := mapError_eq_error_iff.mp h
    exact Place.within_singleton (Tlv.offset_of_readElement_error hread)
  have houter := within_of_readElement (mapError_eq_ok_iff.mp hread)
  have hstart := Place.within_nil octets.length
  refine (failsWithin_require hstart).bind fun _ _ => ?_
  -- octets behind the object are located at its end
  refine FailsWithin.bind (failsWithin_require (Place.within_singleton ?_)) fun _ _ => ?_
  · have hend := houter.stop
    simp only [Place.offset] at hend
    omega
  refine (failsWithin_childrenIn .rule houter).bind fun children hchildren => ?_
  have hwithin := within_of_childrenIn houter hchildren
  refine (failsWithin_childOr hstart _ _).bind fun reference hreference => ?_
  refine (failsWithin_childOr hstart _ _).bind fun access haccess => ?_
  refine (failsWithin_readReferenceObject
    (hwithin reference (mem_of_childOr hreference))).bind fun _ _ => ?_
  exact (failsWithin_readAccessObject
    (hwithin access (mem_of_childOr haccess))).bind fun _ _ => failsWithin_ok _

/-! ## Starts -/

/-- A place is counted exactly from every start from which all of the octets are. -/
theorem Place.Within.countedFrom_eq {place : Place} (h : place.Within size) {start : Int}
    (hlow : -(2 * leastMantissa) ≤ start) (hhigh : start + size ≤ 2 * leastMantissa) :
    place.countedFrom start = start + place.offset := by
  refine Place.countedFrom_eq fun way hway => ?_
  have hoffset := h way hway
  omega

/-- Octets of which all numbers are exact give the same at a start as at the front, further on. -/
theorem Rule.decodeAt_eq_shift {octets : Bytes} {start : Int}
    (hlow : -(2 * leastMantissa) ≤ start) (hhigh : start + octets.length ≤ 2 * leastMantissa) :
    Rule.decodeAt start octets = (Rule.decode octets).mapError (Located.shift start) := by
  cases hread : Rule.read octets with
  | ok rule => rw [Rule.decodeAt, Rule.decode, hread]; rfl
  | error flaw =>
    -- every sum on the way to the place is one of the exact numbers
    have hplace := (failsWithin_read octets flaw hread).countedFrom_eq hlow hhigh
    rw [Rule.decodeAt, Rule.decode, hread]
    show Except.error (⟨flaw.item, flaw.place.countedFrom start⟩ : Located RuleFlaw) =
      .error ⟨flaw.item, start + flaw.place.offset⟩
    rw [hplace]

/-- At zero, places are exact if all of the octets have exact numbers. -/
theorem Rule.decodeAt_zero {octets : Bytes} (h : octets.length ≤ 2 * leastMantissa) :
    Rule.decodeAt 0 octets = Rule.decode octets := by
  rw [Rule.decodeAt_eq_shift (by omega) (by omega)]
  cases Rule.decode octets with
  | ok rule => rfl
  | error flaw =>
    show Except.error (⟨flaw.reason, 0 + flaw.offset⟩ : Located RuleFlaw) = .error flaw
    rw [Int.zero_add]

/-- The rule that is read does not depend on the start, and neither does the reason why none is. -/
theorem Rule.reason_decodeAt (start : Int) (octets : Bytes) :
    (Rule.decodeAt start octets).mapError Located.reason =
      (Rule.decodeAt 0 octets).mapError Located.reason := by
  unfold Rule.decodeAt
  cases Rule.read octets with
  | ok rule => rfl
  | error flaw => rfl

/-- The place of a flaw is not outside of the octets. -/
theorem Rule.offset_of_decode_error {octets : Bytes} {flaw : Located RuleFlaw}
    (h : Rule.decode octets = .error flaw) : 0 ≤ flaw.offset ∧ flaw.offset ≤ octets.length := by
  obtain ⟨placed, hread, rfl⟩ := mapError_eq_error_iff.mp h
  exact (failsWithin_read octets placed hread).offset

end AccessRules
