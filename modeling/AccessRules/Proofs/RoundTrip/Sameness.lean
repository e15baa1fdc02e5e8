import AccessRules.Proofs.RoundTrip.Calls

/-!
# Sameness of rules is sameness of their encodings

Rules are compared in two ways: field by field, and by the octets that they are written as.  Of
rules that were made the verdict is the same (`RoundTrip.same_iff_encodings`):

1. **One rule** — fields that are the same make the same rule: filters are compared as octets in a
   row, which valid filters can be cut from in one way only (`Rule.same_iff_eq`).  And a rule is
   read back from its encoding, so no two valid rules share one (`Rule.eq_of_encode_eq`).

2. **Rows** — so the first objects in which two encodings differ are those of the first rules that
   are not the same field by field (`Canonical.firstDifference_of_encodings`), by induction on the
   rules and their encodings side by side.
-/

namespace AccessRules

/-! ## One rule -/

/-- Valid filters that are the same octets in a row are the same filters. -/
theorem eq_of_joinFilters_eq {filters others : List ApduFilter}
    (h : ∀ filter ∈ filters, filter.Valid) (h' : ∀ filter ∈ others, filter.Valid)
    (heq : joinFilters filters = joinFilters others) : filters = others := by
  rw [← cutFilters_joinFilters h, heq, cutFilters_joinFilters h']

/-- Valid accesses are the same if they are equal: joined filters can be taken apart. -/
theorem ApduAccess.same_iff_eq {access other : ApduAccess} (h : access.Valid) (h' : other.Valid) :
    access.same other = true ↔ access = other := by
  cases access with
  | whole permission =>
    show decide (ApduAccess.whole permission = other) = true ↔ _
    rw [decide_eq_true_eq]
  | filtered filters =>
    cases other with
    | whole permission => exact ⟨nofun, nofun⟩
    | filtered others =>
      show decide (joinFilters filters = joinFilters others) = true ↔ _
      rw [decide_eq_true_eq, ApduAccess.filtered.injEq]
      constructor
      · exact eq_of_joinFilters_eq h.2 h'.2
      · exact congrArg joinFilters

/-- Valid rules that are the same field by field are the same rule. -/
theorem Rule.same_iff_eq {rule other : Rule} (h : rule.Valid) (h' : other.Valid) :
    rule.same other = true ↔ rule = other := by
  obtain ⟨reference, ⟨apdu, nfc, permissions⟩⟩ := rule
  obtain ⟨reference', ⟨apdu', nfc', permissions'⟩⟩ := other
  have hapdu : ∀ access ∈ apdu, ∀ other ∈ apdu', access.same other = true ↔ access = other :=
    fun access hmem other hmem' =>
      ApduAccess.same_iff_eq (h.access.apdu access hmem) (h'.access.apdu other hmem')
  simp only [Rule.same, Bool.and_eq_true, decide_eq_true_eq, Rule.mk.injEq, Access.mk.injEq,
    and_assoc]
  cases apdu with
  | none => cases apdu' <;> simp
  | some access =>
    cases apdu' with
    | none => simp
    | some other => rw [hapdu access rfl other rfl, Option.some.injEq]

/-- No two valid rules have one encoding. -/
theorem Rule.eq_of_encode_eq {rule other : Rule} (h : rule.Valid) (h' : other.Valid)
    {octets : Bytes} (hencode : rule.encode = .ok octets) (hencode' : other.encode = .ok octets) :
    rule = other := by
  have hread := Rule.read_of_encode h hencode
  rw [Rule.read_of_encode h' hencode'] at hread
  exact (Except.ok.inj hread).symm

/-- Valid rules are the same field by field exactly if their encodings are the same. -/
theorem Rule.same_iff_octets {rule other : Rule} (h : rule.Valid) (h' : other.Valid)
    {octets octets' : Bytes} (hencode : rule.encode = .ok octets)
    (hencode' : other.encode = .ok octets') : rule.same other = true ↔ octets = octets' := by
  rw [Rule.same_iff_eq h h']
  constructor
  · rintro rfl
    exact Except.ok.inj (hencode.symm.trans hencode')
  · rintro rfl
    exact Rule.eq_of_encode_eq h h' hencode hencode'

/-! ## Rows -/

namespace Canonical

/-- The first place at which two lists of rules are not the same field by field, from `index` on. -/
def firstUnlike (index : Nat) : List Rule → List Rule → Option Nat
  | [], [] => none
  | rule :: rules, other :: others =>
    if rule.same other then firstUnlike (index + 1) rules others else some index
  | _, _ => some index

/-- `Alike rules others` — the lists are equally long and rule by rule the same. -/
def Alike (rules others : List Rule) : Prop :=
  List.Forall₂ (fun rule other => rule.same other = true) rules others

/-- No place is found if the rules are alike one by one. -/
theorem firstUnlike_eq_none_iff {index : Nat} {rules others : List Rule} :
    firstUnlike index rules others = none ↔ Alike rules others := by
  induction rules generalizing index others with
  | nil =>
    cases others with
    | nil => exact ⟨fun _ => .nil, fun _ => rfl⟩
    | cons other others => exact ⟨nofun, nofun⟩
  | cons rule rules ih =>
    cases others with
    | nil => exact ⟨nofun, nofun⟩
    | cons other others =>
      rw [firstUnlike, Alike, List.forall₂_cons]
      -- the count only names the place, so the rest may start from any
      by_cases hsame : rule.same other = true
      · rw [if_pos hsame, ih, Alike]
        exact (and_iff_right hsame).symm
      · rw [if_neg hsame]
        exact ⟨nofun, fun h => absurd h.1 hsame⟩

/-- `EachWritten rules pieces` — the octets are the encodings of the rules, one for each. -/
abbrev EachWritten (rules : List Rule) (pieces : List Bytes) : Prop :=
  List.Forall₂ (fun rule piece => rule.encode = .ok piece) rules pieces

/-- Encodings first differ where the rules are first unlike. -/
theorem firstDifference_of_encodings {rules others : List Rule} {pieces pieces' : List Bytes}
    (hrules : ∀ rule ∈ rules, rule.Valid) (hothers : ∀ rule ∈ others, rule.Valid)
    (h : EachWritten rules pieces) (h' : EachWritten others pieces') (index : Nat) :
    firstDifference index pieces pieces' = firstUnlike index rules others := by
  induction h generalizing index others pieces' with
  | nil => cases h' <;> rfl
  | @cons rule piece rules pieces hfirst _ ih =>
    cases h' with
    | nil => rfl
    | @cons other piece' others pieces' hfirst' hrest' =>
      obtain ⟨hrule, hrules⟩ := List.forall_mem_cons.mp hrules
      obtain ⟨hother, hothers⟩ := List.forall_mem_cons.mp hothers
      have hsame := Rule.same_iff_octets hrule hother hfirst hfirst'
      rw [firstDifference, firstUnlike, ih hrules hothers hrest']
      by_cases heq : piece = piece'
      · rw [if_pos heq, if_pos (hsame.mpr heq)]
      · rw [if_neg heq, if_neg fun hfields => heq (hsame.mp hfields)]

/-- The piece at a place is the encoding of the rule there. -/
theorem EachWritten.getElem? {rules : List Rule} {pieces : List Bytes}
    (h : EachWritten rules pieces) (n : Nat) :
    pieces[n]? = rules[n]?.bind fun rule => rule.encode.toOption := by
  induction h generalizing n with
  | nil => rfl
  | @cons rule piece rules pieces hfirst _ ih =>
    cases n with
    | zero =>
      show some piece = rule.encode.toOption
      rw [hfirst]
      rfl
    | succ n => exact ih n

/-- Each piece is the object of a rule. -/
theorem EachWritten.isRuleObject {rules : List Rule} {pieces : List Bytes}
    (h : EachWritten rules pieces) : ∀ piece ∈ pieces, IsRuleObject piece := by
  intro piece hmem
  obtain ⟨rule, -, hrule⟩ := exists_of_mem_left h.flip piece hmem
  exact isRuleObject_of_encode hrule

end Canonical

/-! ## Verdicts -/

namespace RoundTrip

variable {ε : Type}

/-- Fails at the first place at which two lists of rules are not the same field by field, with the
    encodings of the rules there. -/
def sameRules (rules others : List Rule) (source : Source) : Except (Error ε) Unit :=
  match Canonical.firstUnlike 0 rules others with
  | none => .ok ()
  | some n =>
    .error (.mismatch n (rules[n]?.bind fun rule => rule.encode.toOption)
      (others[n]?.bind fun rule => rule.encode.toOption) source)

/-- **Rules are the same exactly if their encodings are.**  Rules that were made are the same field
    by field exactly if they are written as the same octets.  So two lists of such rules are rule by
    rule the same exactly if they are written as the same octets, and the comparison of these octets
    ends as the comparison of the rules does: it passes, or it fails at the first place at which the
    rules are not the same or one list has ended, and shows their encodings. -/
theorem same_iff_encodings :
    (∀ (rule other : Rule) (octets octets' : Bytes), rule.Made → other.Made →
      rule.encode = .ok octets → other.encode = .ok octets' →
        (rule.same other = true ↔ octets = octets')) ∧
    ∀ (rules others : List Rule) (octets octets' : Bytes),
      (∀ rule ∈ rules, rule.Made) → (∀ rule ∈ others, rule.Made) →
      Canonical.encode rules = .ok octets → Canonical.encode others = .ok octets' →
        (Canonical.Alike rules others ↔ octets = octets') ∧
        Canonical.mismatch? octets octets' = .ok (Canonical.firstUnlike 0 rules others) ∧
        ∀ source, (same octets octets' source : Except (Error ε) Unit) =
          sameRules rules others source := by
  refine ⟨fun rule other octets octets' hmade hmade' hencode hencode' => ?_,
    fun rules others octets octets' hmade hmade' hencode hencode' => ?_⟩
  · exact Rule.same_iff_octets (Rule.made_iff_valid.mp hmade) (Rule.made_iff_valid.mp hmade')
      hencode hencode'
  · have hvalid : ∀ rule ∈ rules, rule.Valid := fun rule hmem =>
      Rule.made_iff_valid.mp (hmade rule hmem)
    have hvalid' : ∀ rule ∈ others, rule.Valid := fun rule hmem =>
      Rule.made_iff_valid.mp (hmade' rule hmem)
    -- both rows of octets are made of the encodings of their rules
    obtain ⟨pieces, rfl, hpieces⟩ := Canonical.encode_eq_ok_iff.mp hencode
    obtain ⟨pieces', rfl, hpieces'⟩ := Canonical.encode_eq_ok_iff.mp hencode'
    have hobjects := Canonical.EachWritten.isRuleObject hpieces
    have hobjects' := Canonical.EachWritten.isRuleObject hpieces'
    have hmismatch := Canonical.mismatch?_flatten hobjects hobjects'
    rw [Canonical.firstDifference_of_encodings hvalid hvalid' hpieces hpieces'] at hmismatch
    refine ⟨?_, hmismatch, fun source => ?_⟩
    · rw [← @Canonical.firstUnlike_eq_none_iff 0, ← Canonical.mismatch?_eq_none_iff, hmismatch,
        Except.ok.injEq]
    · rw [same, sameRules, hmismatch, Canonical.cut_flatten hobjects,
        Canonical.cut_flatten hobjects']
      -- the pieces reported are the encodings of the rules in that place
      cases Canonical.firstUnlike 0 rules others with
      | none => rfl
      | some n =>
        show Except.error (Error.mismatch n pieces[n]? pieces'[n]? source) = _
        rw [Canonical.EachWritten.getElem? hpieces, Canonical.EachWritten.getElem? hpieces']

/-- A rule for commands as a whole and one with a filter differ, and so do their encodings; the
    second list goes on where the first one ends. -/
theorem same_iff_encodings_of_longer :
    let always : Rule := ⟨⟨.any, [], none⟩, { apdu := some (.whole .always) }⟩
    let filtered : Rule :=
      ⟨⟨.any, [], some "a"⟩, { apdu := some (.filtered [⟨[1, 0, 0, 0], [0, 0, 0, 0]⟩]) }⟩
    let octets : Bytes := [0xe2, 11, 0xe1, 4, 0xc0, 0, 0xc1, 0, 0xe3, 3, 0xd0, 1, 1]
    let more : Bytes := [0xe2, 21, 0xe1, 7, 0xc0, 0, 0xc1, 0, 0xca, 1, 0x61,
      0xe3, 10, 0xd0, 8, 1, 0, 0, 0, 0, 0, 0, 0]
    always.same filtered = false ∧
      (same octets (octets ++ more) .card : Except (Error Empty) Unit) =
        .error (.mismatch 1 none (some more) .card) := by
  intro always filtered octets more
  have halways : always.Made := .created (show Rule.create always.asInput = .ok always from rfl)
  have hfiltered : filtered.Made :=
    .created (show Rule.create filtered.asInput = .ok filtered from rfl)
  have hencode : always.encode = .ok octets := rfl
  have hencode' : filtered.encode = .ok more := rfl
  obtain ⟨hone, hrows⟩ := @same_iff_encodings Empty
  refine ⟨?_, ?_⟩
  · rw [← Bool.not_eq_true, hone always filtered octets more halways hfiltered hencode hencode']
    decide
  · obtain ⟨-, -, hverdict⟩ := hrows [always] [always, filtered] octets (octets ++ more)
      (List.forall_mem_singleton.mpr halways) (by simp [halways, hfiltered]) rfl rfl
    exact hverdict .card

end RoundTrip

end AccessRules
