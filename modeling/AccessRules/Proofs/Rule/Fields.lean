import AccessRules.Proofs.Rule.Limits
import AccessRules.Proofs.Text.Units
import AccessRules.Rule.Decode

/-!
# The fields of a rule as octets

Every primitive object of a rule holds one field.  Each section compares what is read from the value
of such an object with what is written for the field.

1. **Filters** — cutting octets into filters and joining filters are inverse to each other between
   valid filters and positive multiples of eight octets (`splitFilters?_eq_some_iff`).

2. **Accesses** — an access to commands, a permission or a mask is read from exactly the octets that
   are written for it, and only if it is valid.

3. **Package names** — the exception.  A name is read from all octets whose low seven bits spell it
   (`readPackageName_eq_ok_iff`), of which only those without a high bit are written for it.
-/

namespace AccessRules

/-! ## Filters -/

theorem joinFilters_cons (filter : ApduFilter) (filters : List ApduFilter) :
    joinFilters (filter :: filters) = filter.header ++ filter.mask ++ joinFilters filters := by
  rw [joinFilters, List.flatMap_cons]
  rfl

/-- A whole filter is not empty. -/
theorem ApduFilter.Valid.octets_ne_nil {filter : ApduFilter} (h : filter.Valid) :
    filter.header ++ filter.mask ≠ [] := by
  intro hnil
  have hheader := h.1
  rw [(List.append_eq_nil_iff.mp hnil).1] at hheader
  cases hheader

/-- Eight octets in front are the first filter. -/
theorem cutFilters_append {header mask : Bytes} (hheader : header.length = 4)
    (hmask : mask.length = 4) (rest : Bytes) :
    cutFilters (header ++ mask ++ rest) = ⟨header, mask⟩ :: cutFilters rest := by
  cases header with
  | nil => exact absurd hheader (by decide)
  | cons first header =>
    have hfour : (first :: header).length = 4 := hheader
    have htake : ((first :: header) ++ (mask ++ rest)).take 4 = first :: header := by
      rw [← hfour, List.take_left]
    have hdrop : ((first :: header) ++ (mask ++ rest)).drop 4 = mask ++ rest := by
      rw [← hfour, List.drop_left]
    have htake' : (mask ++ rest).take 4 = mask := by rw [← hmask, List.take_left]
    have hdrop' : (mask ++ rest).drop 4 = rest := by rw [← hmask, List.drop_left]
    have height : ((first :: header) ++ (mask ++ rest)).drop filterSize = rest := by
      rw [show filterSize = 4 + 4 from rfl, ← List.drop_drop, hdrop, hdrop']
    rw [List.append_assoc, List.cons_append, cutFilters, ← List.cons_append, htake, hdrop, htake',
      height]

/-- Joined filters are cut where they were joined. -/
theorem cutFilters_joinFilters {filters : List ApduFilter}
    (h : ∀ filter ∈ filters, filter.Valid) : cutFilters (joinFilters filters) = filters := by
  induction filters with
  | nil => rw [joinFilters, List.flatMap_nil, cutFilters]
  | cons filter filters ih =>
    obtain ⟨hheader, hmask⟩ := h filter List.mem_cons_self
    rw [joinFilters_cons, cutFilters_append hheader hmask,
      ih fun other hmem => h other (List.mem_cons_of_mem _ hmem)]

theorem length_joinFilters {filters : List ApduFilter} (h : ∀ filter ∈ filters, filter.Valid) :
    (joinFilters filters).length = filterSize * filters.length := by
  induction filters with
  | nil => rfl
  | cons filter filters ih =>
    obtain ⟨hheader, hmask⟩ := h filter List.mem_cons_self
    rw [joinFilters_cons, List.length_append, List.length_append, hheader, hmask,
      ih fun other hmem => h other (List.mem_cons_of_mem _ hmem), List.length_cons, filterSize]
    omega

/-- Octets whose number is a multiple of eight are joined again from the filters that they are cut
    into. -/
theorem joinFilters_cutFilters {octets : Bytes} (h : octets.length % filterSize = 0) :
    joinFilters (cutFilters octets) = octets ∧ ∀ filter ∈ cutFilters octets, filter.Valid := by
  fun_induction cutFilters octets with
  | case1 => exact ⟨rfl, nofun⟩
  | case2 octet rest ih =>
    -- a multiple of eight that is not zero is at least eight, so both halves are full
    have height : 8 ≤ (octet :: rest).length := by
      simp only [filterSize, List.length_cons] at h ⊢
      omega
    obtain ⟨hjoin, hvalid⟩ := ih (by
      simp only [filterSize, List.length_drop] at h ⊢
      omega)
    generalize octet :: rest = octets at *
    constructor
    · rw [joinFilters_cons, hjoin, List.append_assoc, show filterSize = 4 + 4 from rfl,
        ← List.drop_drop, List.take_append_drop, List.take_append_drop]
    · refine List.forall_mem_cons.mpr ⟨⟨?_, ?_⟩, hvalid⟩
      · rw [List.length_take]
        omega
      · rw [List.length_take, List.length_drop]
        omega

/-- Octets are split into filters exactly if they are these filters joined. -/
theorem splitFilters?_eq_some_iff {octets : Bytes} {filters : List ApduFilter} :
    splitFilters? octets = some filters ↔
      octets = joinFilters filters ∧ (ApduAccess.filtered filters).Valid := by
  rw [splitFilters?]
  constructor
  · intro h
    split at h
    · rename_i hare
      simp only [areFilters, Bool.and_eq_true, decide_eq_true_eq] at hare
      obtain rfl := Option.some.inj h
      obtain ⟨hjoin, hvalid⟩ := joinFilters_cutFilters hare.2
      refine ⟨hjoin.symm, ?_, hvalid⟩
      intro hnil
      rw [hnil] at hjoin
      exact hare.1 (hjoin ▸ rfl)
    · cases h
  · rintro ⟨rfl, hsome, hvalid⟩
    have hlength := length_joinFilters hvalid
    have hpos := List.length_pos_iff.mpr hsome
    have hare : areFilters (joinFilters filters) = true := by
      simp only [areFilters, Bool.and_eq_true, decide_eq_true_eq, hlength, filterSize]
      omega
    rw [if_pos hare, cutFilters_joinFilters hvalid]

/-- Eight octets in a row are one filter. -/
theorem splitFilters?_single {filter : ApduFilter} (h : filter.Valid) :
    splitFilters? (filter.header ++ filter.mask) = some [filter] := by
  refine splitFilters?_eq_some_iff.mpr ⟨?_, nofun, ?_⟩
  · rw [joinFilters_cons, joinFilters, List.flatMap_nil, List.append_nil]
  · exact List.forall_mem_singleton.mpr h

/-! ## Accesses -/

/-- A permission is read from its octet only. -/
theorem Permission.ofOctet?_eq_some_iff {octet : UInt8} {permission : Permission} :
    Permission.ofOctet? octet = some permission ↔ octet = permission.octet := by
  unfold Permission.ofOctet?
  constructor
  · intro h
    split at h
    · rename_i hzero
      rw [← Option.some.inj h]
      exact hzero
    · split at h
      · rename_i hone
        rw [← Option.some.inj h]
        exact hone
      · cases h
  · rintro rfl
    cases permission <;> rfl

/-- Filters take eight octets at least, so they are never taken for a permission. -/
theorem octets_ne_singleton {filters : List ApduFilter}
    (h : (ApduAccess.filtered filters).Valid) (octet : UInt8) : joinFilters filters ≠ [octet] := by
  intro heq
  have hlength := length_joinFilters h.2
  have hpos := List.length_pos_iff.mpr h.1
  rw [heq, filterSize, List.length_singleton] at hlength
  omega

/-- An access to commands is read from what is written for it. -/
theorem readApduAccess_eq_ok_iff {element : Placed Tlv.Element} {apdu : ApduAccess} :
    readApduAccess element = .ok apdu ↔ element.item.value = apdu.octets ∧ apdu.Valid := by
  unfold readApduAccess
  split
  · -- one octet is a permission for all commands, as filters have more
    rename_i octet hone
    rw [hone]
    constructor
    · intro h
      split at h
      · rename_i permission hoctet
        obtain rfl := Except.ok.inj h
        rw [Permission.ofOctet?_eq_some_iff] at hoctet
        exact ⟨by rw [hoctet]; rfl, trivial⟩
      · cases h
    · rintro ⟨hoctets, hvalid⟩
      cases apdu with
      | whole permission =>
        have hoctet : octet = permission.octet := List.singleton_inj.mp hoctets
        rw [Permission.ofOctet?_eq_some_iff.mpr hoctet]
      | filtered filters => exact absurd hoctets.symm (octets_ne_singleton hvalid octet)
  · -- any other number of octets is cut into filters, as a permission has one
    rename_i hmany
    constructor
    · intro h
      split at h
      · rename_i filters hsplit
        obtain rfl := Except.ok.inj h
        exact splitFilters?_eq_some_iff.mp hsplit
      · cases h
    · rintro ⟨hoctets, hvalid⟩
      cases apdu with
      | whole permission => exact absurd hoctets (hmany permission.octet)
      | filtered filters => rw [splitFilters?_eq_some_iff.mpr ⟨hoctets, hvalid⟩]

/-- An access to contactless events is read from what is written for it. -/
theorem readNfcAccess_eq_ok_iff {element : Placed Tlv.Element} {permission : Permission} :
    readNfcAccess element = .ok permission ↔ element.item.value = [permission.octet] := by
  unfold readNfcAccess
  split
  · rename_i octet hone
    rw [hone, List.singleton_inj]
    constructor
    · intro h
      split at h
      · rename_i found hoctet
        obtain rfl := Except.ok.inj h
        exact Permission.ofOctet?_eq_some_iff.mp hoctet
      · cases h
    · intro h
      rw [Permission.ofOctet?_eq_some_iff.mpr h]
  · rename_i hmany
    exact ⟨nofun, fun h => absurd h (hmany permission.octet)⟩

/-- Carrier privileges are read from what is written for them. -/
theorem readPermissions_eq_ok_iff {element : Placed Tlv.Element} {mask : Bytes} :
    readPermissions element = .ok mask ↔
      element.item.value = mask ∧ mask.length = permissionsSize := by
  simp only [readPermissions]
  split
  · rename_i hsize
    constructor
    · intro h
      obtain rfl := Except.ok.inj h
      exact ⟨rfl, hsize⟩
    · rintro ⟨rfl, -⟩
      rfl
  · rename_i hsize
    refine ⟨nofun, ?_⟩
    rintro ⟨rfl, h⟩
    exact absurd h hsize

/-! ## Package names -/

/-- Package names have visible characters of ASCII only. -/
theorem lt_of_mem_packageName {name : String} (h : isPackageName name = true) :
    ∀ c ∈ name.toList, 0x21 ≤ c.toNat ∧ c.toNat ≤ 0x7e := by
  intro c hc
  unfold isPackageName at h
  split at h
  · cases h
  · rename_i first rest hname
    rw [hname] at hc
    simp only [Bool.and_eq_true, List.all_eq_true] at h
    simpa [isVisible] using h.1.2 c hc

/-- The octets that are written for a package name spell it. -/
theorem ofSevenBit_lowOctets_packageName {name : String} (h : isPackageName name = true) :
    Text.ofSevenBit (Text.lowOctets name) = name :=
  Text.ofSevenBit_lowOctets fun c hc => by
    have hvisible := lt_of_mem_packageName h c hc
    omega

/-- A package name is read from all octets that spell it. -/
theorem readPackageName_eq_ok_iff {element : Placed Tlv.Element} {name : String} :
    readPackageName element = .ok name ↔
      Text.ofSevenBit element.item.value = name ∧ isPackageName name = true := by
  simp only [readPackageName]
  split
  · rename_i hname
    constructor
    · intro h
      obtain rfl := Except.ok.inj h
      exact ⟨rfl, hname⟩
    · rintro ⟨rfl, -⟩
      rfl
  · rename_i hname
    refine ⟨nofun, ?_⟩
    rintro ⟨rfl, h⟩
    exact absurd h hname

end AccessRules
