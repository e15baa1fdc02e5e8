import AccessRules.Proofs.Canonical.Rows
import AccessRules.Proofs.Outline.Listing

/-!
# The listing of a row of rules

Octets that are decoded as rules have a listing, and each object in it is proper: its tag is one of
those allowed at its depth, it has a value unless it is one of the two that may be empty, and the
value of a package name spells one.

1. **Levels** — a level of proper objects is put together object by object
   (`ListsProper.primitive`, `ListsProper.container`), so it is proper if the objects that were
   written for it are (`listsProper_of_encodeAll`).

2. **Halves** — the objects that are written for a reference and for an access rule are proper
   (`proper_of_mem_objectsWith`, `proper_of_mem_objects`), by the limits of a valid rule.

3. **Rows** — so what is read as a rule holds proper levels (`listsProper_of_read`), and what is
   decoded as rules is one (`listsProper_of_decode`).
-/

namespace AccessRules.Outline

/-! ## Levels -/

/-- The tags at a depth of a row of rules: rules, their halves, and what the halves may hold. -/
def tagsAt : Nat → List Nat
  | 0 => [Objects.rule]
  | 1 => Container.rule.allowed
  | 2 => Container.reference.allowed ++ Container.access.allowed
  | _ => []

/-- `Proper depth tag value` — a row of rules may have an object with this tag and this value at
`depth`. -/
structure Proper (depth tag : Nat) (value : Bytes) : Prop where
  allowed : tag ∈ tagsAt depth
  empty : value = [] → tag ∈ [Objects.anyAidRef, Objects.deviceAppIdRef]
  packageName : tag = Objects.packageRef → isPackageName (Text.ofSevenBit value) = true

/-- An object with a value that is no package name need only be allowed where it is. -/
theorem Proper.of_ne_nil {depth tag : Nat} {value : Bytes} (allowed : tag ∈ tagsAt depth)
    (hname : tag ≠ Objects.packageRef) (hsome : value ≠ []) : Proper depth tag value :=
  ⟨allowed, fun hempty => absurd hempty hsome, fun htag => absurd htag hname⟩

/-- `ListsProper depth octets` — `octets` have a listing at `depth`, and its objects are proper. -/
def ListsProper (depth : Nat) (octets : Bytes) : Prop :=
  ∃ objects, Listing isContainer depth octets objects ∧
    ∀ object ∈ objects, Proper object.depth object.tag object.value

/-- An object that holds none goes in front of a level. -/
theorem ListsProper.primitive {depth tag : Nat} {value written rest : Bytes}
    (h : Tlv.encode tag value = .ok written) (hproper : Proper depth tag value)
    (closed : isContainer tag = false) (behind : ListsProper depth rest) :
    ListsProper depth (written ++ rest) := by
  obtain ⟨others, hothers, hproperOthers⟩ := behind
  exact ⟨_, .primitive (Tlv.readElement_of_encode h rest) closed hothers,
    List.forall_mem_cons.mpr ⟨hproper, hproperOthers⟩⟩

/-- An object that holds a level goes in front of another one. -/
theorem ListsProper.container {depth tag : Nat} {value written rest : Bytes}
    (h : Tlv.encode tag value = .ok written) (hproper : Proper depth tag value)
    (opened : isContainer tag = true) (inside : ListsProper (depth + 1) value)
    (behind : ListsProper depth rest) : ListsProper depth (written ++ rest) := by
  obtain ⟨inner, hinner, hproperInner⟩ := inside
  obtain ⟨others, hothers, hproperOthers⟩ := behind
  exact ⟨_, .container (Tlv.readElement_of_encode h rest) opened hinner hothers,
    List.forall_mem_cons.mpr
      ⟨hproper, List.forall_mem_append.mpr ⟨hproperInner, hproperOthers⟩⟩⟩

/-- Objects written one behind the other are a level, if those inside containers are. -/
theorem listsProper_of_encodeAll {depth : Nat} {objects : List (Nat × Bytes)} {octets : Bytes}
    (h : encodeAll objects = .ok octets)
    (hproper : ∀ object ∈ objects, Proper depth object.1 object.2)
    (hinside : ∀ object ∈ objects, isContainer object.1 = true →
      ListsProper (depth + 1) object.2) :
    ListsProper depth octets := by
  induction objects generalizing octets with
  | nil =>
    obtain rfl := Except.ok.inj h
    exact ⟨[], .nil, nofun⟩
  | cons object objects ih =>
    obtain ⟨first, rest, hfirst, hrest, rfl⟩ := encodeAll_cons_eq_ok_iff.mp h
    rw [List.forall_mem_cons] at hproper hinside
    have behind := ih hrest hproper.2 hinside.2
    cases hcontainer : isContainer object.1 with
    | false => exact .primitive hfirst hproper.1 hcontainer behind
    | true => exact .container hfirst hproper.1 hcontainer (hinside.1 hcontainer) behind

/-- Some objects, in whatever order, take some octets. -/
theorem octets_ne_nil_of_perm {objects others : List (Nat × Bytes)} {octets : Bytes}
    (h : encodeAll objects = .ok octets) (hperm : objects.Perm others) (hsome : others ≠ []) :
    octets ≠ [] := by
  cases objects with
  | nil => exact absurd (List.nil_perm.mp hperm) hsome
  | cons object objects =>
    obtain ⟨first, rest, hfirst, -, rfl⟩ := encodeAll_cons_eq_ok_iff.mp h
    exact fun hnil => Tlv.encode_ne_nil hfirst (List.append_eq_nil_iff.mp hnil).1

/-! ## Halves -/

/-- What is written for a reference is proper, however its package name is spelled. -/
theorem proper_of_mem_objectsWith {reference : Reference} {spelling : Option Bytes}
    (hvalid : reference.Valid) (hspells : Spells spelling reference.packageName) :
    ∀ object ∈ reference.objectsWith spelling, Proper 2 object.1 object.2 := by
  refine List.forall_mem_cons.mpr ⟨?_, List.forall_mem_cons.mpr ⟨?_, ?_⟩⟩
  · have htarget := hvalid.target
    cases hcase : reference.target with
    | any => exact ⟨by decide, fun _ => by decide, nofun⟩
    | aid octets =>
      rw [hcase] at htarget
      show Proper 2 Objects.aidRef octets
      exact .of_ne_nil (by decide) (by decide) htarget.1
  · show Proper 2 Objects.deviceAppIdRef reference.deviceAppId
    exact ⟨by decide, fun _ => by decide, nofun⟩
  · cases spelling with
    | none => exact nofun
    | some octets =>
      have hname : isPackageName (Text.ofSevenBit octets) = true :=
        hvalid.packageName _ hspells.symm
      have hproper : Proper 2 Objects.packageRef octets := by
        refine ⟨by decide, ?_, fun _ => hname⟩
        rintro rfl
        cases hname
      exact List.forall_mem_singleton.mpr hproper

/-- The access to commands has octets: a permission, or one filter at least. -/
theorem ApduAccess.octets_ne_nil {apdu : ApduAccess} (h : apdu.Valid) : apdu.octets ≠ [] := by
  cases apdu with
  | whole permission => exact List.cons_ne_nil _ _
  | filtered filters =>
    have hlength := length_joinFilters h.2
    have hpos := List.length_pos_iff.mpr h.1
    rw [filterSize] at hlength
    exact List.ne_nil_of_length_pos (by rw [ApduAccess.octets]; omega)

/-- What is written for an access rule is proper. -/
theorem proper_of_mem_objects {access : Access} (hvalid : access.Valid) :
    ∀ object ∈ access.objects, Proper 2 object.1 object.2 := by
  obtain ⟨apdu, nfc, permissions⟩ := access
  simp only [Access.objects, List.forall_mem_append]
  refine ⟨⟨?_, ?_⟩, ?_⟩
  · cases apdu with
    | none => exact fun object hmem => absurd hmem List.not_mem_nil
    | some apdu =>
      have hsome := ApduAccess.octets_ne_nil (hvalid.apdu apdu rfl)
      have hproper : Proper 2 Objects.apduAccess apdu.octets :=
        .of_ne_nil (by decide) (by decide) hsome
      exact List.forall_mem_singleton.mpr hproper
  · cases nfc with
    | none => exact fun object hmem => absurd hmem List.not_mem_nil
    | some permission =>
      have hsome : [permission.octet] ≠ [] := List.cons_ne_nil _ _
      have hproper : Proper 2 Objects.nfcAccess [permission.octet] :=
        .of_ne_nil (by decide) (by decide) hsome
      exact List.forall_mem_singleton.mpr hproper
  · cases permissions with
    | none => exact fun object hmem => absurd hmem List.not_mem_nil
    | some mask =>
      have hlength : mask.length = permissionsSize := hvalid.permissions mask rfl
      have hsome : mask ≠ [] := by
        rintro rfl
        cases hlength
      have hproper : Proper 2 Objects.permissions mask := .of_ne_nil (by decide) (by decide) hsome
      exact List.forall_mem_singleton.mpr hproper

/-- Two levels down no object holds others. -/
theorem isContainer_of_proper {tag : Nat} {value : Bytes} (h : Proper 2 tag value) :
    isContainer tag = false := by
  have hall : ∀ tag ∈ tagsAt 2, isContainer tag = false := by decide
  exact hall tag h.allowed

/-- Nothing in a half of a rule holds objects itself. -/
theorem listsProper_of_primitives {objects : List (Nat × Bytes)} {octets : Bytes}
    (h : encodeAll objects = .ok octets)
    (hproper : ∀ object ∈ objects, Proper 2 object.1 object.2) :
    ListsProper 2 octets := by
  refine listsProper_of_encodeAll h hproper fun object hmem hopened => ?_
  rw [isContainer_of_proper (hproper object hmem)] at hopened
  cases hopened

/-! ## Rows -/

/-- What is read as a rule is one object with proper levels inside. -/
theorem listsProper_of_read {octets : Bytes} {rule : Rule} (h : Rule.read octets = .ok rule) :
    ∃ value, Tlv.encode Objects.rule value = .ok octets ∧ Proper 0 Objects.rule value ∧
      ListsProper 1 value := by
  obtain ⟨hvalid, spelling, hspells, referenceOrder, accessOrder, halves, referenceValue,
    accessValue, value, hperm, hvalue, hperm', hvalue', hhalves, hencode, hwritten⟩ :=
    Rule.read_eq_ok_iff.mp h
  have hreference : Proper 1 Objects.reference referenceValue ∧ ListsProper 2 referenceValue := by
    have hsome := octets_ne_nil_of_perm hvalue hperm (List.cons_ne_nil _ _)
    refine ⟨.of_ne_nil (by decide) (by decide) hsome,
      listsProper_of_primitives hvalue fun object hmem => ?_⟩
    exact proper_of_mem_objectsWith hvalid.reference hspells object (hperm.mem_iff.mp hmem)
  have haccess : Proper 1 Objects.access accessValue ∧ ListsProper 2 accessValue := by
    have hsome := octets_ne_nil_of_perm hvalue' hperm' fun hnone =>
      hvalid.access.present (Access.objects_eq_nil_iff.mp hnone)
    refine ⟨.of_ne_nil (by decide) (by decide) hsome,
      listsProper_of_primitives hvalue' fun object hmem => ?_⟩
    exact proper_of_mem_objects hvalid.access object (hperm'.mem_iff.mp hmem)
  -- each half has objects in it, and so has the rule
  have hboth : ∀ object ∈ halves, Proper 1 object.1 object.2 ∧ ListsProper 2 object.2 := by
    intro object hmem
    rcases List.mem_cons.mp (hhalves.mem_iff.mp hmem) with rfl | hmem
    · exact hreference
    · obtain rfl := List.mem_singleton.mp hmem
      exact haccess
  have hsome := octets_ne_nil_of_perm hencode hhalves (List.cons_ne_nil _ _)
  exact ⟨value, hwritten, .of_ne_nil (by decide) (by decide) hsome,
    listsProper_of_encodeAll hencode (fun object hmem => (hboth object hmem).1)
      fun object hmem _ => (hboth object hmem).2⟩

/-- Octets that are decoded as rules are a level of proper objects. -/
theorem listsProper_of_decode {octets : Bytes} {rules : List Rule}
    (h : Canonical.decode octets = .ok rules) : ListsProper 0 octets := by
  obtain ⟨pieces, rfl, hpieces⟩ := Canonical.decode_eq_ok_iff.mp h
  clear h
  -- the rules are a level one by one, each in front of the others
  induction hpieces with
  | nil => exact ⟨[], .nil, nofun⟩
  | cons hfirst _ ih =>
    obtain ⟨value, hwritten, hproper, inside⟩ := listsProper_of_read hfirst
    exact .container hwritten hproper (by decide) inside ih

end AccessRules.Outline
