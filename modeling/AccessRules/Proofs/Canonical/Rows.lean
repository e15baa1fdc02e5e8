import AccessRules.Canonical
import AccessRules.Proofs.Rule.Arrangement
import Mathlib.Data.List.Forall2

/-!
# Rows of rules

Octets are a row of rules if they are encodings one after the other.

1. **Cutting** — octets are cut into pieces exactly if they are these pieces joined and each piece
   is one rule object (`cutFrom_eq_ok_iff`).

2. **Decoding and writing** — both go piece by piece (`decode_eq_ok_iff`, `encode_eq_ok_iff`), so
   what holds of one rule holds of a row: written rules are read back (`decode_of_encode`), and what
   is decoded has an encoding of the same length (`exists_encode_of_decode`).

3. **Parts of a row** — a part of a row of rules that has an encoding has one too, which is no
   longer (`encode_of_sublist`).
-/

namespace AccessRules.Canonical

/-! ## Cutting -/

/-- `IsRuleObject piece` — the octets are one data object with the tag of a rule. -/
def IsRuleObject (piece : Bytes) : Prop := ∃ value, Tlv.encode Objects.rule value = .ok piece

/-- The first piece is a rule object in front of the rest, which is cut from where this ends. -/
theorem cutFrom_eq_ok_cons_iff {offset index : Nat} {octets piece : Bytes}
    {pieces : List Bytes} :
    cutFrom offset index octets = .ok (piece :: pieces) ↔
      ∃ rest, IsRuleObject piece ∧ octets = piece ++ rest ∧
        cutFrom (offset + piece.length) (index + 1) rest = .ok pieces := by
  rw [cutFrom]
  constructor
  · intro h
    split at h
    · cases h
    · split at h
      · cases h
      · rename_i element rest hread
        obtain ⟨written, hwritten, rfl, -, hsize⟩ := Tlv.readElement_eq_ok_iff.mp hread
        split at h
        · rename_i htag
          obtain ⟨others, hcut, hcons⟩ := map_eq_ok_iff.mp h
          -- what is taken for the piece is the object that was read
          rw [hsize, List.take_left] at hcons
          obtain ⟨rfl, rfl⟩ := List.cons.inj hcons
          rw [htag] at hwritten
          refine ⟨rest, ⟨element.value, hwritten⟩, rfl, ?_⟩
          rw [← hsize]
          exact hcut
        · cases h
  · rintro ⟨rest, ⟨value, hwritten⟩, rfl, hcut⟩
    -- the piece is not empty, so there are octets to be cut
    have hsome : piece ++ rest ≠ [] := by
      intro hnil
      exact Tlv.encode_ne_nil hwritten (List.append_eq_nil_iff.mp hnil).1
    have hread := Tlv.readElement_of_encode hwritten rest
    rw [if_neg hsome]
    split
    · rename_i hflaw
      rw [hread] at hflaw
      cases hflaw
    · rename_i element rest' hread'
      rw [hread] at hread'
      obtain ⟨rfl, rfl⟩ := Prod.mk.inj (Except.ok.inj hread')
      rw [if_pos rfl, hcut, List.take_left]
      rfl

/-- There are no pieces in no octets only. -/
theorem cutFrom_eq_ok_nil_iff {offset index : Nat} {octets : Bytes} :
    cutFrom offset index octets = .ok [] ↔ octets = [] := by
  rw [cutFrom]
  constructor
  · intro h
    split at h
    · assumption
    · split at h
      · cases h
      · split at h
        · obtain ⟨others, -, hcons⟩ := map_eq_ok_iff.mp h
          cases hcons
        · cases h
  · intro hnil
    rw [if_pos hnil]

/-- Octets are cut into the rule objects that they are made of. -/
theorem cutFrom_eq_ok_iff {offset index : Nat} {octets : Bytes} {pieces : List Bytes} :
    cutFrom offset index octets = .ok pieces ↔
      octets = pieces.flatten ∧ ∀ piece ∈ pieces, IsRuleObject piece := by
  induction pieces generalizing offset index octets with
  | nil =>
    rw [cutFrom_eq_ok_nil_iff, List.flatten_nil]
    exact ⟨fun h => ⟨h, nofun⟩, fun h => h.1⟩
  | cons piece pieces ih =>
    simp only [cutFrom_eq_ok_cons_iff, ih, List.flatten_cons, List.forall_mem_cons]
    constructor
    · rintro ⟨rest, hpiece, rfl, rfl, hpieces⟩
      exact ⟨rfl, hpiece, hpieces⟩
    · rintro ⟨rfl, hpiece, hpieces⟩
      exact ⟨pieces.flatten, hpiece, rfl, rfl, hpieces⟩

/-- What is read as a rule is a rule object. -/
theorem isRuleObject_of_read {piece : Bytes} {rule : Rule} (h : Rule.read piece = .ok rule) :
    IsRuleObject piece := by
  obtain ⟨-, spelling, -, _, _, _, _, _, value, -, -, -, -, -, -, hpiece⟩ :=
    Rule.read_eq_ok_iff.mp h
  exact ⟨value, hpiece⟩

/-- What is written for a rule is a rule object. -/
theorem isRuleObject_of_encode {rule : Rule} {octets : Bytes} (h : rule.encode = .ok octets) :
    IsRuleObject octets := by
  obtain ⟨-, -, value, -, -, -, hwritten⟩ := Rule.encode_eq_ok_iff.mp h
  exact ⟨value, hwritten⟩

/-! ## Decoding and writing -/

theorem exists_of_mem_left {α β : Type} {related : α → β → Prop} {as : List α} {bs : List β}
    (h : List.Forall₂ related as bs) : ∀ a ∈ as, ∃ b ∈ bs, related a b := by
  induction h with
  | nil => exact nofun
  | @cons a b as bs hfirst _ ih =>
    intro a' hmem
    rcases List.mem_cons.mp hmem with rfl | hmem
    · exact ⟨b, List.mem_cons_self, hfirst⟩
    · obtain ⟨b', hmem', hb'⟩ := ih a' hmem
      exact ⟨b', List.mem_cons_of_mem _ hmem', hb'⟩

/-- Pieces are decoded if each is read as a rule; where it starts does not matter for that. -/
theorem decodeEach_eq_ok_iff {offset : Nat} {pieces : List Bytes} {rules : List Rule} :
    decodeEach offset pieces = .ok rules ↔
      List.Forall₂ (fun piece rule => Rule.read piece = .ok rule) pieces rules := by
  induction pieces generalizing offset rules with
  | nil =>
    rw [List.forall₂_nil_left_iff]
    exact ⟨fun h => (Except.ok.inj h).symm, fun h => congrArg Except.ok h.symm⟩
  | cons piece pieces ih =>
    simp only [decodeEach, bind_eq_ok_iff, Rule.decodeAt_eq_ok_iff, ih, Except.ok.injEq,
      List.forall₂_cons_left_iff]
    constructor
    · rintro ⟨rule, hrule, others, hothers, rfl⟩
      exact ⟨rule, others, hrule, hothers, rfl⟩
    · rintro ⟨rule, others, hrule, hothers, rfl⟩
      exact ⟨rule, hrule, others, hothers, rfl⟩

/-- Octets are decoded if they are made of pieces that are each read as a rule. -/
theorem decode_eq_ok_iff {octets : Bytes} {rules : List Rule} :
    decode octets = .ok rules ↔
      ∃ pieces, octets = pieces.flatten ∧
        List.Forall₂ (fun piece rule => Rule.read piece = .ok rule) pieces rules := by
  simp only [decode, cut, bind_eq_ok_iff, mapError_eq_ok_iff, cutFrom_eq_ok_iff,
    decodeEach_eq_ok_iff]
  constructor
  · rintro ⟨pieces, ⟨hflatten, -⟩, hread⟩
    exact ⟨pieces, hflatten, hread⟩
  · rintro ⟨pieces, hflatten, hread⟩
    refine ⟨pieces, ⟨hflatten, fun piece hmem => ?_⟩, hread⟩
    obtain ⟨rule, -, hrule⟩ := exists_of_mem_left hread piece hmem
    exact isRuleObject_of_read hrule

/-- The first rule is written in front of the others. -/
theorem encode_cons_eq_ok_iff {rule : Rule} {rules : List Rule} {octets : Bytes} :
    encode (rule :: rules) = .ok octets ↔
      ∃ first rest, rule.encode = .ok first ∧ encode rules = .ok rest ∧ octets = first ++ rest := by
  simp only [encode, bind_eq_ok_iff, Except.ok.injEq]
  constructor
  · rintro ⟨first, hfirst, rest, hrest, rfl⟩
    exact ⟨first, rest, hfirst, hrest, rfl⟩
  · rintro ⟨first, rest, hfirst, hrest, rfl⟩
    exact ⟨first, hfirst, rest, hrest, rfl⟩

/-- Rules are written piece by piece. -/
theorem encode_eq_ok_iff {rules : List Rule} {octets : Bytes} :
    encode rules = .ok octets ↔
      ∃ pieces, octets = pieces.flatten ∧
        List.Forall₂ (fun rule piece => rule.encode = .ok piece) rules pieces := by
  induction rules generalizing octets with
  | nil =>
    simp only [List.forall₂_nil_left_iff, encode, Except.ok.injEq]
    constructor
    · rintro rfl
      exact ⟨[], rfl, rfl⟩
    · rintro ⟨_, rfl, rfl⟩
      rfl
  | cons rule rules ih =>
    simp only [encode_cons_eq_ok_iff, ih, List.forall₂_cons_left_iff]
    constructor
    · rintro ⟨first, _, hfirst, ⟨pieces, rfl, hpieces⟩, rfl⟩
      exact ⟨first :: pieces, rfl, first, pieces, hfirst, hpieces, rfl⟩
    · rintro ⟨_, rfl, first, pieces, hfirst, hpieces, rfl⟩
      exact ⟨first, pieces.flatten, hfirst, ⟨pieces, rfl, hpieces⟩, rfl⟩

/-- Written rules are read back. -/
theorem decode_of_encode {rules : List Rule} (hvalid : ∀ rule ∈ rules, rule.Valid)
    {octets : Bytes} (h : encode rules = .ok octets) : decode octets = .ok rules := by
  obtain ⟨pieces, hflatten, hpieces⟩ := encode_eq_ok_iff.mp h
  refine decode_eq_ok_iff.mpr ⟨pieces, hflatten, ?_⟩
  clear h hflatten
  induction hpieces with
  | nil => exact .nil
  | cons hfirst _ ih =>
    obtain ⟨hrule, hrules⟩ := List.forall_mem_cons.mp hvalid
    exact .cons (Rule.read_of_encode hrule hfirst) (ih hrules)

/-- Decoded rules are valid. -/
theorem valid_of_decode {octets : Bytes} {rules : List Rule} (h : decode octets = .ok rules) :
    ∀ rule ∈ rules, rule.Valid := by
  obtain ⟨pieces, -, hpieces⟩ := decode_eq_ok_iff.mp h
  intro rule hmem
  obtain ⟨piece, -, hread⟩ := exists_of_mem_left hpieces.flip rule hmem
  exact Rule.valid_of_read hread

/-- Decoded rules have an encoding, as long as what they were decoded from. -/
theorem exists_encode_of_decode {octets : Bytes} {rules : List Rule}
    (h : decode octets = .ok rules) :
    ∃ canonical, encode rules = .ok canonical ∧ canonical.length = octets.length := by
  obtain ⟨pieces, rfl, hpieces⟩ := decode_eq_ok_iff.mp h
  clear h
  induction hpieces with
  | nil => exact ⟨[], rfl, rfl⟩
  | @cons piece rule pieces rules hfirst _ ih =>
    obtain ⟨first, hencode, hlength⟩ := Rule.exists_encode_of_read hfirst
    obtain ⟨rest, hrest, hlength'⟩ := ih
    refine ⟨first ++ rest, encode_cons_eq_ok_iff.mpr ⟨first, rest, hencode, hrest, rfl⟩, ?_⟩
    rw [List.flatten_cons, List.length_append, List.length_append, hlength, hlength']

/-! ## Parts of a row -/

/-- A part of a row of rules has an encoding that is no longer. -/
theorem encode_of_sublist {rules part : List Rule} (hpart : part.Sublist rules) {octets : Bytes}
    (h : encode rules = .ok octets) :
    ∃ octets', encode part = .ok octets' ∧ octets'.length ≤ octets.length := by
  induction hpart generalizing octets with
  | slnil => exact ⟨octets, h, Nat.le_refl _⟩
  | cons rule _ ih =>
    obtain ⟨first, rest, -, hrest, rfl⟩ := encode_cons_eq_ok_iff.mp h
    obtain ⟨octets', hoctets', hle⟩ := ih hrest
    refine ⟨octets', hoctets', ?_⟩
    rw [List.length_append]
    omega
  | cons_cons rule _ ih =>
    obtain ⟨first, rest, hfirst, hrest, rfl⟩ := encode_cons_eq_ok_iff.mp h
    obtain ⟨rest', hrest', hle⟩ := ih hrest
    refine ⟨first ++ rest', encode_cons_eq_ok_iff.mpr ⟨first, rest', hfirst, hrest', rfl⟩, ?_⟩
    rw [List.length_append, List.length_append]
    omega

end AccessRules.Canonical
