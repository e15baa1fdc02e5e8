import AccessRules.Proofs.Canonical.Rows
import AccessRules.Proofs.Rule.Places

/-!
# Where octets are no row of rules

Octets that cannot be decoded stop being rule objects somewhere, or are rule objects of which one is
no rule.  Both are located, and the first comes first.

1. **Cutting** — all octets are rule objects with a rest in which there is none in front
   (`exists_front`).  Cutting goes through the rule objects (`cutFrom_append`) and fails at a rest
   that goes on (`cutFrom_of_none_in_front`), so it fails exactly where they stop
   (`cut_error_iff_stopsAt`), whatever is in them.

2. **Decoding** — pieces are decoded one by one, each from where it starts, so a flaw is that of the
   first piece that is refused (`decodeEach_eq_error_iff`).  Read by itself, this piece has the same
   flaw, nearer by the length of the pieces in front of it (`exists_flaw_at_zero`).

3. **Reports** — a caller is told one of two kinds of failure, with the place and, for octets that
   stop, the number of rules in front (`DecodeError.report_cases`).

`decode_located` has all three, and what a start other than zero does to the place of a flaw.
-/

namespace AccessRules.Canonical

/-! ## Cutting -/

/-- `StopsAt octets offset index` — the first `offset` octets are `index` rule objects, and the
octets go on behind them, but not with a rule object. -/
structure StopsAt (octets : Bytes) (offset index : Nat) : Prop where
  front : ∃ pieces : List Bytes, octets.take offset = pieces.flatten ∧ pieces.length = index ∧
    ∀ piece ∈ pieces, IsRuleObject piece
  more : offset < octets.length
  none_next : ∀ piece, IsRuleObject piece → ¬ piece <+: octets.drop offset

/-- All octets are rule objects and a rest in front of which there is none. -/
theorem exists_front (octets : Bytes) :
    ∃ (pieces : List Bytes) (rest : Bytes), octets = pieces.flatten ++ rest ∧
      (∀ piece ∈ pieces, IsRuleObject piece) ∧
      ∀ piece, IsRuleObject piece → ¬ piece <+: rest := by
  -- a rule object in front leaves fewer octets, so the recursion is on their number
  induction hsize : octets.length using Nat.strongRecOn generalizing octets with
  | _ size ih =>
    obtain rfl := hsize
    by_cases hnext : ∃ piece, IsRuleObject piece ∧ piece <+: octets
    · obtain ⟨piece, hpiece, rest, rfl⟩ := hnext
      have hpos : 0 < piece.length := by
        obtain ⟨value, hwritten⟩ := hpiece
        exact List.length_pos_iff.mpr (Tlv.encode_ne_nil hwritten)
      obtain ⟨pieces, rest', rfl, hpieces, hnone⟩ := ih rest.length
        (by rw [List.length_append]; omega) rest rfl
      refine ⟨piece :: pieces, rest', ?_, List.forall_mem_cons.mpr ⟨hpiece, hpieces⟩, hnone⟩
      rw [List.flatten_cons, List.append_assoc]
    · refine ⟨[], octets, rfl, nofun, fun piece hpiece hfront => ?_⟩
      exact hnext ⟨piece, hpiece, hfront⟩

/-- Cutting goes through the rule objects in front. -/
theorem cutFrom_append {start index : Nat} {pieces : List Bytes}
    (h : ∀ piece ∈ pieces, IsRuleObject piece) (rest : Bytes) :
    cutFrom start index (pieces.flatten ++ rest) =
      (cutFrom (start + pieces.flatten.length) (index + pieces.length) rest).map
        (pieces ++ ·) := by
  induction pieces generalizing start index with
  | nil =>
    show cutFrom start index rest = (cutFrom start index rest).map id
    cases cutFrom start index rest <;> rfl
  | cons piece pieces ih =>
    obtain ⟨⟨value, hwritten⟩, hpieces⟩ := List.forall_mem_cons.mp h
    have hsome : (piece :: pieces).flatten ++ rest ≠ [] := by
      intro hnil
      exact Tlv.encode_ne_nil hwritten (List.append_eq_nil_iff.mp
        (List.append_eq_nil_iff.mp hnil).1).1
    have hread := Tlv.readElement_of_encode hwritten (pieces.flatten ++ rest)
    rw [← List.append_assoc, ← List.flatten_cons] at hread
    rw [cutFrom, if_neg hsome]
    split
    · rename_i hflaw
      rw [hread] at hflaw
      cases hflaw
    · rename_i element rest' hread'
      rw [hread] at hread'
      obtain ⟨rfl, rfl⟩ := Prod.mk.inj (Except.ok.inj hread')
      -- the object in front is the first piece, and the others are counted from its end
      rw [if_pos rfl, ih hpieces, List.flatten_cons, List.append_assoc, List.take_left,
        List.length_append, List.length_cons, Nat.add_assoc, Nat.add_assoc, Nat.add_comm 1]
      cases cutFrom _ _ rest <;> rfl

/-- Cutting fails at octets that go on with something else. -/
theorem cutFrom_of_none_in_front (start index : Nat) {octets : Bytes} (hmore : octets ≠ [])
    (h : ∀ piece, IsRuleObject piece → ¬ piece <+: octets) :
    ∃ reason, cutFrom start index octets = .error ⟨reason, start, index⟩ := by
  rw [cutFrom, if_neg hmore]
  split
  · exact ⟨_, rfl⟩
  · rename_i element rest hread
    obtain ⟨written, hwritten, rfl, -⟩ := Tlv.readElement_eq_ok_iff.mp hread
    rw [if_neg]
    · exact ⟨_, rfl⟩
    · -- an object with the tag of a rule would be a rule object in front
      intro htag
      rw [htag] at hwritten
      exact h written ⟨element.value, hwritten⟩ (List.prefix_append written rest)

/-- Cutting fails exactly where the rule objects stop. -/
theorem cut_error_iff_stopsAt {octets : Bytes} {offset index : Nat} :
    (∃ reason, cut octets = .error ⟨reason, offset, index⟩) ↔ StopsAt octets offset index := by
  constructor
  · rintro ⟨reason, h⟩
    obtain ⟨pieces, rest, rfl, hpieces, hnone⟩ := exists_front octets
    rw [cut, cutFrom_append hpieces, Nat.zero_add, Nat.zero_add] at h
    have hrest := map_eq_error_iff.mp h
    -- without a rest all octets would be cut
    have hmore : rest ≠ [] := by
      rintro rfl
      rw [cutFrom, if_pos rfl] at hrest
      cases hrest
    obtain ⟨reason', hstop⟩ :=
      cutFrom_of_none_in_front pieces.flatten.length pieces.length hmore hnone
    rw [hstop] at hrest
    obtain ⟨-, rfl, rfl⟩ := CutError.mk.inj (Except.error.inj hrest)
    refine ⟨⟨pieces, List.take_left, rfl, hpieces⟩, ?_, ?_⟩
    · have hpos := List.length_pos_iff.mpr hmore
      rw [List.length_append]
      omega
    · rw [List.drop_left]
      exact hnone
  · rintro ⟨⟨pieces, htake, rfl, hpieces⟩, hmore, hnone⟩
    have hlength : pieces.flatten.length = offset := by
      rw [← htake, List.length_take]
      omega
    have hrest : octets.drop offset ≠ [] := by
      rw [Ne, List.drop_eq_nil_iff]
      omega
    obtain ⟨reason, hstop⟩ := cutFrom_of_none_in_front offset pieces.length hrest hnone
    refine ⟨reason, ?_⟩
    rw [cut, ← List.take_append_drop offset octets, htake, cutFrom_append hpieces, hlength,
      Nat.zero_add, Nat.zero_add, hstop]
    rfl

/-! ## Decoding -/

/-- A rule object has few enough octets to number them exactly. -/
theorem IsRuleObject.length_le {piece : Bytes} (h : IsRuleObject piece) :
    piece.length ≤ 2 * leastMantissa := by
  obtain ⟨value, hwritten⟩ := h
  obtain ⟨tag, length, htag, hlength, rfl⟩ := Tlv.encode_eq_ok_iff.mp hwritten
  have h3 := (Tlv.encodeTag_eq_ok_iff.mp htag).1.length_le
  have h4 : length.length ≤ 4 := by
    have hcount := octetCount_le value.length
    rw [Tlv.length_of_encodeLength hlength, Tlv.lengthSize]
    split <;> omega
  have hvalue := Tlv.exists_encodeLength_iff.mp ⟨length, hlength⟩
  rw [List.length_append, List.length_append, leastMantissa]
  omega

/-- Decoding pieces fails at the first that is no rule, read from where it starts. -/
theorem decodeEach_eq_error_iff {start : Nat} {pieces : List Bytes} {flaw : Located RuleFlaw} :
    decodeEach start pieces = .error flaw ↔
      ∃ (before : List Bytes) (piece : Bytes) (later : List Bytes),
        pieces = before ++ piece :: later ∧
        (∀ front ∈ before, ∃ rule, Rule.read front = .ok rule) ∧
        Rule.decodeAt (start + before.flatten.length : Nat) piece = .error flaw := by
  induction pieces generalizing start with
  | nil =>
    refine ⟨nofun, ?_⟩
    rintro ⟨before, piece, later, hnil, -⟩
    have hsome := List.append_ne_nil_of_right_ne_nil before (List.cons_ne_nil piece later)
    exact absurd hnil.symm hsome
  | cons first pieces ih =>
    simp only [decodeEach, bind_eq_error_iff, Rule.decodeAt_eq_ok_iff, ih]
    constructor
    · rintro (hflaw | ⟨rule, hrule, hrest | ⟨_, _, h⟩⟩)
      · refine ⟨[], first, pieces, rfl, ?_, hflaw⟩
        intro front hmem
        cases hmem
      · obtain ⟨before, piece, later, rfl, hbefore, hflaw⟩ := hrest
        refine ⟨first :: before, piece, later, rfl, ?_, ?_⟩
        · exact List.forall_mem_cons.mpr ⟨⟨rule, hrule⟩, hbefore⟩
        · rw [List.flatten_cons, List.length_append, ← Nat.add_assoc]
          exact hflaw
      · cases h
    · rintro ⟨before, piece, later, hpieces, hbefore, hflaw⟩
      -- the first piece is refused itself, or it is in front of the one that is
      cases before with
      | nil =>
        obtain ⟨rfl, rfl⟩ := List.cons.inj hpieces
        exact Or.inl hflaw
      | cons front before =>
        obtain ⟨rfl, rfl⟩ := List.cons.inj hpieces
        obtain ⟨⟨rule, hrule⟩, hbefore⟩ := List.forall_mem_cons.mp hbefore
        rw [List.flatten_cons, List.length_append, ← Nat.add_assoc] at hflaw
        exact Or.inr ⟨rule, hrule, Or.inl ⟨before, piece, later, rfl, hbefore, hflaw⟩⟩

/-- `RefusedAt octets flaw` — the octets are rule objects, and the flaw is that of the first of them
that is no rule, read from where it starts.  Read by itself the object has the same flaw, and if all
numbers through the end of the object are exact, then it is as much further on in the octets as the
object is, and lies in the object. -/
def RefusedAt (octets : Bytes) (flaw : Located RuleFlaw) : Prop :=
  ∃ (before : List Bytes) (piece : Bytes) (later : List Bytes) (inner : Located RuleFlaw),
    octets = (before ++ piece :: later).flatten ∧
    (∀ front ∈ before ++ piece :: later, IsRuleObject front) ∧
    (∀ front ∈ before, ∃ rule, Rule.decodeAt 0 front = .ok rule) ∧
    Rule.decodeAt before.flatten.length piece = .error flaw ∧
    Rule.decodeAt 0 piece = .error inner ∧ flaw.reason = inner.reason ∧
    (before.flatten.length + piece.length ≤ 2 * leastMantissa →
      flaw = inner.shift before.flatten.length ∧
      (before.flatten.length : Int) ≤ flaw.offset ∧
      flaw.offset ≤ before.flatten.length + piece.length)

/-- Decoding fails to cut just if cutting fails. -/
theorem decode_eq_cut_error_iff {octets : Bytes} {error : CutError} :
    decode octets = .error (.cut error) ↔ cut octets = .error error := by
  simp only [decode, bind_eq_error_iff, mapError_eq_error_iff]
  constructor
  · rintro (⟨found, hfound, heq⟩ | ⟨_, -, _, -, heq⟩)
    · obtain rfl := DecodeError.cut.inj heq
      exact hfound
    · cases heq
  · intro h
    exact Or.inl ⟨error, h, rfl⟩

/-- Decoding has a flaw in a rule just if the octets are cut and one of the pieces has it. -/
theorem decode_eq_rule_error_iff {octets : Bytes} {flaw : Located RuleFlaw} :
    decode octets = .error (.rule flaw) ↔
      ∃ pieces, cut octets = .ok pieces ∧ decodeEach 0 pieces = .error flaw := by
  simp only [decode, bind_eq_error_iff, mapError_eq_error_iff, mapError_eq_ok_iff]
  constructor
  · rintro (⟨_, -, heq⟩ | ⟨pieces, hcut, found, hfound, heq⟩)
    · cases heq
    · obtain rfl := DecodeError.rule.inj heq
      exact ⟨pieces, hcut, hfound⟩
  · rintro ⟨pieces, hcut, hflaw⟩
    exact Or.inr ⟨pieces, hcut, flaw, hflaw, rfl⟩

/-- What is refused at a start is refused at zero, for the same reason, and if all numbers from the
start on are exact then the places are as far apart as the starts. -/
theorem exists_flaw_at_zero {start : Nat} {piece : Bytes} {flaw : Located RuleFlaw}
    (hobject : IsRuleObject piece) (h : Rule.decodeAt start piece = .error flaw) :
    ∃ inner, Rule.decodeAt 0 piece = .error inner ∧ flaw.reason = inner.reason ∧
      (start + piece.length ≤ 2 * leastMantissa →
        flaw = inner.shift start ∧ (start : Int) ≤ flaw.offset ∧
        flaw.offset ≤ start + piece.length) := by
  obtain ⟨inner, hinner, hreason⟩ : ∃ inner, Rule.decodeAt 0 piece = .error inner ∧
      inner.reason = flaw.reason := by
    have hsame := Rule.reason_decodeAt start piece
    rw [h] at hsame
    exact mapError_eq_error_iff.mp hsame.symm
  refine ⟨inner, hinner, hreason.symm, fun hexact => ?_⟩
  -- at exact numbers both starts give the flaw of the object alone, moved
  rw [Rule.decodeAt_zero hobject.length_le] at hinner
  rw [Rule.decodeAt_eq_shift (by omega) (by omega), hinner] at h
  obtain rfl : inner.shift start = flaw := Except.error.inj h
  have hin := Rule.offset_of_decode_error hinner
  refine ⟨rfl, ?_⟩
  show (start : Int) ≤ start + inner.offset ∧ start + inner.offset ≤ _
  omega

/-- A flaw is reported exactly of octets that are rule objects, and it is that of the first that is
no rule. -/
theorem decode_rule_error_iff_refusedAt {octets : Bytes} {flaw : Located RuleFlaw} :
    decode octets = .error (.rule flaw) ↔ RefusedAt octets flaw := by
  simp only [decode_eq_rule_error_iff, cut, cutFrom_eq_ok_iff, decodeEach_eq_error_iff,
    Nat.zero_add]
  constructor
  · rintro ⟨_, ⟨rfl, hobjects⟩, before, piece, later, rfl, hbefore, hflaw⟩
    have hpiece := hobjects piece (List.mem_append_right before List.mem_cons_self)
    obtain ⟨inner, hinner, hreason, hexact⟩ := exists_flaw_at_zero hpiece hflaw
    refine ⟨before, piece, later, inner, rfl, hobjects, ?_, hflaw, hinner, hreason, hexact⟩
    simp only [Rule.decodeAt_eq_ok_iff]
    exact hbefore
  · rintro ⟨before, piece, later, _, rfl, hobjects, hbefore, hflaw, -⟩
    simp only [Rule.decodeAt_eq_ok_iff] at hbefore
    exact ⟨_, ⟨rfl, hobjects⟩, before, piece, later, rfl, hbefore, hflaw⟩

/-! ## Reports -/

/-- A failure to decode is reported as octets that stop or as a rule that is refused, with its place
and, in the first case, the number of rules in front. -/
theorem DecodeError.report_cases (error : DecodeError) :
    (∃ stop, error = .cut stop ∧ error.report.notice.category = .coded .malformedStore ∧
      error.report.notice.particulars =
        { offset := some (stop.offset : Int), recordIndex := some (stop.index : Int) }) ∨
    ∃ flaw, error = .rule flaw ∧ error.report.notice.category = .coded .malformedRecord ∧
      error.report.notice.particulars = { offset := some flaw.offset } := by
  cases error with
  | cut stop => exact Or.inl ⟨stop, rfl, stop.notice_report⟩
  | rule flaw => exact Or.inr ⟨flaw, rfl, RuleFlaw.notice_report flaw⟩

/-! ## Together -/

/-- **Octets that are no row of rules are located exactly.**  Decoding fails in two ways only.  It
says where the octets stop being rule objects, and behind how many, exactly if they stop there,
whatever is wrong with the objects in front.  It reports a flaw exactly if the octets are rule
objects and the first of them that is no rule has it when read from its start; it is then further on
by what is in front of the object and not outside of it (`RefusedAt`).  Reading an object that
starts elsewhere gives the same rule or the same reason, and the place is further on by the start,
if all numbers from the start through the end of the octets are exact, which they are up to
`2 * leastMantissa`, the number `2 ^ 53`. -/
theorem decode_located :
    (∀ octets error, decode octets = .error error →
      (∃ stop, error = .cut stop ∧ error.report.notice.category = .coded .malformedStore ∧
        error.report.notice.particulars =
          { offset := some (stop.offset : Int), recordIndex := some (stop.index : Int) }) ∨
      ∃ flaw, error = .rule flaw ∧ error.report.notice.category = .coded .malformedRecord ∧
        error.report.notice.particulars = { offset := some flaw.offset }) ∧
    (∀ octets offset index,
      (∃ reason, decode octets = .error (.cut ⟨reason, offset, index⟩)) ↔
        StopsAt octets offset index) ∧
    (∀ octets flaw, decode octets = .error (.rule flaw) ↔ RefusedAt octets flaw) ∧
    (∀ start octets, (Rule.decodeAt start octets).mapError Located.reason =
      (Rule.decodeAt 0 octets).mapError Located.reason) ∧
    ∀ (start : Int) (octets : Bytes), octets.length ≤ 2 * leastMantissa →
      -(2 * leastMantissa) ≤ start → start + octets.length ≤ 2 * leastMantissa →
      Rule.decodeAt start octets = (Rule.decodeAt 0 octets).mapError (Located.shift start) := by
  refine ⟨fun _ error _ => error.report_cases, ?_, fun _ _ => decode_rule_error_iff_refusedAt,
    Rule.reason_decodeAt, ?_⟩
  · intro octets offset index
    simp only [decode_eq_cut_error_iff]
    exact cut_error_iff_stopsAt
  · intro start octets hlength hlow hhigh
    rw [Rule.decodeAt_zero hlength, Rule.decodeAt_eq_shift hlow hhigh]

/-- A rule object with a child that no rule has. -/
def strayObject : Bytes := [0xe2, 0x03, 0x4f, 0x01, 0x00]

/-- The child is refused where it stands in the value. -/
theorem read_strayObject :
    Rule.read strayObject = .error ⟨.unexpected 0x4f .rule, [5, -3, 0]⟩ := by
  have hinner : Tlv.decode [0x4f, 0x01, 0x00] = .ok [⟨0x4f, [0x00], 0, 3⟩] :=
    Tlv.decode_of_encode (show Tlv.encode 0x4f [0x00] = .ok [0x4f, 0x01, 0x00] from rfl)
  have hchildren : childrenIn .rule ⟨⟨0xe2, [0x4f, 0x01, 0x00], 0, 5⟩, []⟩ =
      .error ⟨.unexpected 0x4f .rule, [5, -3, 0]⟩ := by
    rw [childrenIn, childrenOf, hinner]
    rfl
  rw [Rule.read, show Tlv.readElement strayObject = .ok (⟨0xe2, [0x4f, 0x01, 0x00], 0, 5⟩, []) from
    rfl]
  show childrenIn .rule ⟨⟨0xe2, [0x4f, 0x01, 0x00], 0, 5⟩, []⟩ >>= _ = _
  rw [hchildren]
  rfl

/-- The child is at the start of the value, wherever the object is; and octets that go on behind an
object stop there, although the object is refused by itself. -/
theorem decode_located_of_strayObject :
    Rule.decodeAt 100 strayObject = .error ⟨.unexpected 0x4f .rule, 102⟩ ∧
    (∃ flaw, decode strayObject = .error (.rule flaw) ∧
      (DecodeError.rule flaw).report.notice.category = .coded .malformedRecord) ∧
    ∃ reason, decode (strayObject ++ [0xff]) = .error (.cut ⟨reason, 5, 1⟩) := by
  have hobject : IsRuleObject strayObject := ⟨[0x4f, 0x01, 0x00], rfl⟩
  have hflaw : Rule.decodeAt 0 strayObject = .error ⟨.unexpected 0x4f .rule, 2⟩ := by
    rw [Rule.decodeAt, read_strayObject]
    rfl
  have hrefused : RefusedAt strayObject ⟨.unexpected 0x4f .rule, 2⟩ :=
    ⟨[], strayObject, [], _, rfl, List.forall_mem_singleton.mpr hobject,
      fun _ hmem => absurd hmem List.not_mem_nil, hflaw, hflaw, rfl,
      fun _ => ⟨rfl, by decide, by decide⟩⟩
  have hstops : StopsAt (strayObject ++ [0xff]) 5 1 := by
    refine ⟨⟨[strayObject], rfl, rfl, List.forall_mem_singleton.mpr hobject⟩, by decide, ?_⟩
    -- no data object begins with a first octet of a tag alone
    rintro piece ⟨value, hwritten⟩ ⟨rest, hfront⟩
    have hread := Tlv.readElement_of_encode hwritten rest
    rw [hfront] at hread
    cases hread
  have hrule := (decode_located.2.2.1 strayObject _).mpr hrefused
  refine ⟨?_, ⟨_, hrule, ?_⟩, (decode_located.2.1 _ 5 1).mpr hstops⟩
  · rw [decode_located.2.2.2.2 100 strayObject (by decide) (by decide) (by decide), hflaw]
    rfl
  · rcases decode_located.1 _ _ hrule with ⟨_, hcut, -⟩ | ⟨_, -, hcategory, -⟩
    · cases hcut
    · exact hcategory

/-- Where numbers are two apart, the way into the value ends beside the place. -/
theorem decodeAt_strayObject_far :
    Rule.decodeAt 9007199254740992 strayObject =
      .error ⟨.unexpected 0x4f .rule, 9007199254740992⟩ ∧
    (Rule.decodeAt 0 strayObject).mapError (Located.shift 9007199254740992) =
      .error ⟨.unexpected 0x4f .rule, 9007199254740994⟩ ∧
    ¬∀ start octets, Rule.decodeAt start octets =
      (Rule.decodeAt 0 octets).mapError (Located.shift start) := by
  have hfar : Rule.decodeAt 9007199254740992 strayObject =
      .error ⟨.unexpected 0x4f .rule, 9007199254740992⟩ := by
    rw [Rule.decodeAt, read_strayObject]
    rfl
  have hnear : (Rule.decodeAt 0 strayObject).mapError (Located.shift 9007199254740992) =
      .error ⟨.unexpected 0x4f .rule, 9007199254740994⟩ := by
    rw [Rule.decodeAt, read_strayObject]
    rfl
  refine ⟨hfar, hnear, fun h => ?_⟩
  have hsame := h 9007199254740992 strayObject
  rw [hfar, hnear] at hsame
  exact absurd hsame (by decide)

end AccessRules.Canonical
