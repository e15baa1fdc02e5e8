import AccessRules.Hex
import AccessRules.Text.Blank

/-!
# The digits of octets

Octets are known again from their digits (`Hex.encode_injective`).  The digits themselves are the
sixteen lower-case ones (`Hex.exists_of_mem_encode`), so what is true of these is true of every
character that is written for octets: none is a blank, a hyphen, a slash or an asterisk
(`Hex.ne_of_mem_encode`, `Hex.solid_of_mem_encode`).  So they are from their upper-case digits
(`Hex.encodeUpper_injective`), among which there is no blank and no bracket either
(`Hex.upper_of_mem_encodeUpper`).  Octets are read from digits of either case, and from any mixture
of both, but from nothing else (`Hex.decode?_eq_some_iff`).
-/

namespace AccessRules.Hex

/-- Octets are known again from their digits, as these are read back. -/
theorem encode_injective {octets others : Bytes} (h : encode octets = encode others) :
    octets = others := by
  have hread := decode?_encode octets
  rw [h, decode?_encode] at hread
  exact (Option.some.inj hread).symm

/-- No digits stand for no octets only. -/
theorem encode_eq_empty_iff {octets : Bytes} : encode octets = "" ↔ octets = [] := by
  constructor
  · intro h
    exact encode_injective (h.trans (show "" = encode [] from rfl))
  · rintro rfl
    rfl

/-- Pairs of digits have nothing but digits in them. -/
theorem exists_of_mem_pairs {octets : Bytes} {c : Char} (hc : c ∈ octets.flatMap pair) :
    ∃ n : Fin 16, c = Nat.digitChar n := by
  rw [List.mem_flatMap] at hc
  obtain ⟨octet, -, hc⟩ := hc
  have hoctet : octet.toNat < 256 := octet.toNat_lt
  simp only [pair, List.mem_cons, List.not_mem_nil, or_false] at hc
  rcases hc with rfl | rfl
  · exact ⟨⟨octet.toNat / 16, by omega⟩, rfl⟩
  · exact ⟨⟨octet.toNat % 16, by omega⟩, rfl⟩

/-- Octets are written in lower-case digits. -/
theorem exists_of_mem_encode {octets : Bytes} {c : Char} (hc : c ∈ (encode octets).toList) :
    ∃ n : Fin 16, c = Nat.digitChar n := by
  rw [encode, String.toList_ofList] at hc
  exact exists_of_mem_pairs hc

theorem digitChar_ne : ∀ n : Fin 16,
    Nat.digitChar n ≠ '/' ∧ Nat.digitChar n ≠ '*' ∧ Nat.digitChar n ≠ '-' := by decide

theorem isBlank_digitChar : ∀ n : Fin 16, Text.isBlank (Nat.digitChar n) = false := by decide

/-- Digits are none of the signs that keys and options are told apart by. -/
theorem ne_of_mem_encode {octets : Bytes} {c : Char} (hc : c ∈ (encode octets).toList) :
    c ≠ '/' ∧ c ≠ '*' ∧ c ≠ '-' := by
  obtain ⟨n, rfl⟩ := exists_of_mem_encode hc
  exact digitChar_ne n

/-- There are no blanks among digits. -/
theorem solid_of_mem_encode {octets : Bytes} {c : Char} (hc : c ∈ (encode octets).toList) :
    Text.isBlank c = false := by
  obtain ⟨n, rfl⟩ := exists_of_mem_encode hc
  exact isBlank_digitChar n

/-! ## Upper-case digits -/

theorem toLower_toUpper_digitChar : ∀ n : Fin 16,
    (Nat.digitChar n).toUpper.toLower = Nat.digitChar n := by decide

theorem upper_digitChar : ∀ n : Fin 16,
    Text.isBlank (Nat.digitChar n).toUpper = false ∧ (Nat.digitChar n).toUpper ≠ '(' := by decide

/-- Upper-case digits are no blanks and no opening brackets either. -/
theorem upper_of_mem_encodeUpper {octets : Bytes} {c : Char}
    (hc : c ∈ (encodeUpper octets).toList) : Text.isBlank c = false ∧ c ≠ '(' := by
  rw [encodeUpper, String.toList_ofList] at hc
  obtain ⟨digit, hdigit, rfl⟩ := List.mem_map.mp hc
  obtain ⟨n, rfl⟩ := exists_of_mem_pairs hdigit
  exact upper_digitChar n

/-- The lower case of upper-case digits are the digits that are written otherwise. -/
theorem toLower_encodeUpper (octets : Bytes) :
    String.ofList ((encodeUpper octets).toList.map Char.toLower) = encode octets := by
  rw [encodeUpper, encode, String.toList_ofList, List.map_map]
  refine congrArg _ ((List.map_congr_left fun digit hdigit => ?_).trans (List.map_id _))
  obtain ⟨n, rfl⟩ := exists_of_mem_pairs hdigit
  exact toLower_toUpper_digitChar n

/-- Octets are known again from their upper-case digits. -/
theorem encodeUpper_injective {octets others : Bytes}
    (h : encodeUpper octets = encodeUpper others) : octets = others := by
  refine encode_injective ?_
  rw [← toLower_encodeUpper, h, toLower_encodeUpper]

/-! ## Digits of either case -/

/-- For the characters below 128, going through them shows that the case of a digit does not matter
and that only the sixteen digits are read. -/
theorem digit?_toLower_ascii : ∀ n : Fin 128,
    digit? (Char.ofNat n).toLower = digit? (Char.ofNat n) ∧
      ∀ digit ∈ digit? (Char.ofNat n),
        digit < 16 ∧ (Char.ofNat n).toLower = Nat.digitChar digit := by decide

/-- Characters behind ASCII are no digits, and have no lower case. -/
theorem digit?_toLower_of_le {c : Char} (h : 128 ≤ c.toNat) :
    c.toLower = c ∧ digit? c = none := by
  have hbound : ∀ d : Char, d.toNat < 128 → ¬ c ≤ d := by
    intro d hd hle
    have hval : c.toNat ≤ d.toNat := hle
    omega
  constructor
  · refine dif_neg ?_
    rintro ⟨-, hle⟩
    exact hbound 'Z' (by decide) hle
  · rw [digit?, if_neg fun hdigit => hbound '9' (by decide) hdigit.2,
      if_neg fun hdigit => hbound 'f' (by decide) hdigit.2,
      if_neg fun hdigit => hbound 'F' (by decide) hdigit.2]

/-- A digit has one value in either case. -/
theorem digit?_toLower (c : Char) : digit? c.toLower = digit? c := by
  by_cases hascii : c.toNat < 128
  · have hcase := (digit?_toLower_ascii ⟨c.toNat, hascii⟩).1
    rwa [Char.ofNat_toNat] at hcase
  · rw [(digit?_toLower_of_le (Nat.le_of_not_lt hascii)).1]

/-- A digit is in lower case the one that is written for its value. -/
theorem toLower_of_digit? {c : Char} {digit : Nat} (h : digit? c = some digit) :
    digit < 16 ∧ c.toLower = Nat.digitChar digit := by
  by_cases hascii : c.toNat < 128
  · have hcase := (digit?_toLower_ascii ⟨c.toNat, hascii⟩).2 digit
    rw [Char.ofNat_toNat] at hcase
    exact hcase h
  · rw [(digit?_toLower_of_le (Nat.le_of_not_lt hascii)).2] at h
    cases h

/-- Two characters that are read as an octet are its digits, in either case. -/
theorem pair_of_octet? {high low : Char} {octet : UInt8} (h : octet? high low = some octet) :
    [high.toLower, low.toLower] = pair octet := by
  obtain ⟨first, hfirst, h⟩ := Option.bind_eq_some_iff.mp h
  obtain ⟨second, hsecond, h⟩ := Option.bind_eq_some_iff.mp h
  obtain rfl := Option.some.inj h
  obtain ⟨hfirst, hhigh⟩ := toLower_of_digit? hfirst
  obtain ⟨hsecond, hlow⟩ := toLower_of_digit? hsecond
  -- sixteen times a digit and another digit are below 256, so nothing wraps around
  have hvalue : (UInt8.ofNat (16 * first + second)).toNat = 16 * first + second := by
    rw [UInt8.toNat_ofNat']
    omega
  rw [pair, hvalue, hhigh, hlow, show (16 * first + second) / 16 = first by omega,
    show (16 * first + second) % 16 = second by omega]

/-- Reading does not depend on the case of the digits. -/
theorem readPairs_map_toLower (cs : List Char) :
    readPairs (cs.map Char.toLower) = readPairs cs := by
  fun_induction readPairs cs with
  | case1 => rfl
  | case2 => rfl
  | case3 high low rest ih =>
    rw [List.map_cons, List.map_cons, readPairs, ih, octet?, digit?_toLower, digit?_toLower]
    rfl

/-- What is read as octets are their digits, in either case. -/
theorem map_toLower_of_readPairs {cs : List Char} {octets : Bytes}
    (h : readPairs cs = some octets) : cs.map Char.toLower = octets.flatMap pair := by
  fun_induction readPairs cs generalizing octets with
  | case1 =>
    obtain rfl := Option.some.inj h
    rfl
  | case2 => cases h
  | case3 high low rest ih =>
    obtain ⟨octet, hoctet, h⟩ := Option.bind_eq_some_iff.mp h
    obtain ⟨others, hothers, h⟩ := Option.bind_eq_some_iff.mp h
    obtain rfl := Option.some.inj h
    rw [List.flatMap_cons, ← pair_of_octet? hoctet, ← ih hothers]
    rfl

/-- Octets are read from their digits of either case, and from nothing else. -/
theorem decode?_eq_some_iff {text : String} {octets : Bytes} :
    decode? text = some octets ↔ text.toLower = encode octets := by
  have hlower : text.toLower.toList = text.toList.map Char.toLower := String.toList_map
  rw [← String.toList_inj, hlower, encode, String.toList_ofList, decode?]
  constructor
  · exact map_toLower_of_readPairs
  · intro h
    rw [← readPairs_map_toLower, h, readPairs_flatMap_pair]

end AccessRules.Hex
