import AccessRules.Proofs.Applet.Serving
import AccessRules.Proofs.Applet.Whole

/-!
# Where an answer may be cut

The answer that holds all rules may come in any pieces, but its header has to come in one piece.

1. **Headers** — the header of all rules has three to six octets (`headerSize`).  Read where it is
   cut off, it is a tag or a length that is cut off (`readHeaderAt_of_cut`).

2. **Answers** — an answer in pieces is read if the header is in the first one
   (`runFrom_readAll_of_header`), and is given up after the first one if it is not
   (`runFrom_readAll_of_no_header`).

3. **The card in memory** — it cuts its answer into pieces of one size, so its rules are read
   exactly if a piece holds the header (`runFrom_readAll_of_card`).

`readAll_cut` has both, for every card and for the card in memory.
-/

namespace AccessRules.Applet

open Step

/-! ## Headers -/

/-- What is wrong with a header of which only `size` octets are there. -/
def cutFlaw (size : Nat) : Located Tlv.Flaw :=
  if size < 2 then ⟨.truncatedTag, 0⟩ else ⟨.truncatedLength, 2⟩

/-- A header that is cut off is not read. -/
theorem readHeaderAt_of_cut {value whole first rest : Bytes}
    (h : Tlv.encode allRulesTag value = .ok whole) (hcut : whole = first ++ rest)
    (hshort : first.length < headerSize value.length) :
    Tlv.readHeaderAt 0 first = .error (cutFlaw first.length) := by
  obtain ⟨tag, length, htag, hlength, rfl⟩ := Tlv.encode_eq_ok_iff.mp h
  obtain rfl : [0xff, 0x40] = tag := Except.ok.inj htag
  rw [headerSize, ← Tlv.length_of_encodeLength hlength] at hshort
  -- the tag has two octets, so the cut is in front of it, in it, or in the length
  match first with
  | [] => rfl
  | [octet] =>
    obtain ⟨rfl, -⟩ := List.cons.inj hcut
    rfl
  | octet :: octet' :: front =>
    simp only [List.cons_append, List.nil_append, List.cons.injEq] at hcut
    obtain ⟨rfl, rfl, hcut⟩ := hcut
    rw [List.length_cons, List.length_cons] at hshort
    have hfront : front <+: length :=
      List.prefix_of_prefix_length_le ⟨rest, hcut.symm⟩ (List.prefix_append length value) (by omega)
    -- behind the tag there is a front of the length, which is cut off
    have hread := Tlv.readLength_of_cut hlength hfront (by omega)
    have htag : Tlv.readTag (0xff :: 0x40 :: front) = .ok ([0xff, 0x40], front) :=
      Tlv.readTag_eq_ok_iff.mpr ⟨rfl, Nat.le_succ 1, rfl⟩
    have hheader : Tlv.readHeader (0xff :: 0x40 :: front) = .error ⟨.truncatedLength, 2⟩ := by
      rw [Tlv.readHeader, htag]
      show (Tlv.readLength front).mapError _ >>= _ = _
      rw [hread]
      rfl
    show ((Tlv.readHeader (0xff :: 0x40 :: front)).mapError _).map Prod.fst = _
    rw [hheader, cutFlaw, if_neg (by rw [List.length_cons, List.length_cons]; omega)]
    rfl

/-! ## Answers -/

section

variable {σ : Type} {applet : Applet σ} {target : Selection} {start link : Link σ}
  {value whole first : Bytes} {pieces : List Bytes} {middle after : σ}

/-- An answer is read in whatever pieces it comes behind its header. -/
theorem runFrom_readAll_of_header (hwhole : Tlv.encode allRulesTag value = .ok whole)
    (hcut : whole = first ++ pieces.flatten) (hpieces : ∀ piece ∈ pieces, piece ≠ [])
    (hheader : headerSize value.length ≤ first.length)
    (hselected : (applet.ensureSelected target).runFrom start = (.ok (), link))
    (hfirst : (applet.card.transmit (getCommand allRulesTag [])).runFrom link.card =
      (.ok (first ++ success), middle))
    (h : Continues applet.card pieces middle after) :
    ((applet.readAll target).runFrom start).1 = .ok value := by
  have hlength : whole.length ≤ first.length + value.length := by
    rw [length_of_encode_allRulesTag hwhole]
    omega
  obtain ⟨sent, hrun⟩ :=
    runFrom_readAll_of_answer hwhole hcut hlength hpieces hselected hfirst h
  rw [hrun]

/-- An answer is given up if its first piece ends in its header. -/
theorem runFrom_readAll_of_no_header (hwhole : Tlv.encode allRulesTag value = .ok whole)
    {rest : Bytes} (hcut : whole = first ++ rest) (hsome : first ≠ [])
    (hheader : first.length < headerSize value.length)
    (hselected : (applet.ensureSelected target).runFrom start = (.ok (), link))
    (hfirst : (applet.card.transmit (getCommand allRulesTag [])).runFrom link.card =
      (.ok (first ++ success), middle)) :
    (applet.readAll target).runFrom start = (.error (.unreadable (cutFlaw first.length)),
      ⟨middle, link.selected, link.sent.push (getCommand allRulesTag [])⟩) := by
  rw [runFrom_readAll_of_success hselected hfirst, if_neg hsome, completeAnswer,
    readHeaderAt_of_cut hwhole hcut hheader]
  rfl

end

/-! ## The card in memory -/

/-- The rules on the card are read exactly if a piece holds the header. -/
theorem runFrom_readAll_of_card {applet : Applet Memory} (hcard : applet.card = Memory.card)
    {target : Selection} (htarget : target.aid = aid) {start : Link Memory}
    (hstart : start.selected = some aid → start.card.selected = true)
    (hrules : start.card.rules ≠ []) (hsize : start.card.rules.flatten.length ≤ 0xffffff)
    (hchunk : 1 ≤ start.card.chunkSize) :
    ((applet.readAll target).runFrom start).1 =
      if (headerSize start.card.rules.flatten.length : Int) ≤ start.card.chunkSize then
        .ok start.card.rules.flatten
      else .error (.unreadable (cutFlaw start.card.chunkSize.toNat)) := by
  obtain ⟨whole, hwhole⟩ := exists_encode_allRulesTag hsize
  obtain ⟨link, hselected, hready⟩ := ready_ensureSelected hcard htarget hstart
  rw [← hready.rules] at hrules hwhole ⊢
  rw [← hready.chunkSize] at hchunk ⊢
  obtain ⟨pieces, middle, hcut, hpieces, hfirst, hrest⟩ :=
    Memory.exists_pieces hchunk hready.selected hrules hwhole
  rw [← hcard] at hfirst hrest
  have hlength := length_of_encode_allRulesTag hwhole
  have hbounds := headerSize_bounds link.card.rules.flatten.length
  -- the first piece is as long as the card allows, or all of the answer
  have htake : (whole.take link.card.chunkSize.toNat).length =
      min link.card.chunkSize.toNat whole.length := List.length_take
  split
  · rename_i hheader
    exact runFrom_readAll_of_header hwhole hcut hpieces (by omega) hselected hfirst hrest
  · rename_i hheader
    have hsome : whole.take link.card.chunkSize.toNat ≠ [] := by
      rw [← List.length_pos_iff]
      omega
    have hall : (whole.take link.card.chunkSize.toNat).length =
        link.card.chunkSize.toNat := by omega
    rw [runFrom_readAll_of_no_header hwhole hcut hsome (by omega) hselected hfirst, hall]

/-- **All rules are read in whatever pieces they come, if the header comes in the first.**  However
the encoding of a value is cut into pieces that are not empty, a card that sends these pieces one
after the other is taken to have sent the value if the first piece holds the header, which has three
to six octets; otherwise the tag or the length in it is taken for one that is cut off, and no other
piece is asked for.  So the rules on the card in memory are read, one behind the other, exactly if
its pieces are as large as the header. -/
theorem readAll_cut (target : Selection) (value : Bytes) (hvalue : value.length ≤ 0xffffff) :
    ∃ whole, Tlv.encode allRulesTag value = .ok whole ∧
      (∀ (first : Bytes) (pieces : List Bytes), whole = first ++ pieces.flatten → first ≠ [] →
        (∀ piece ∈ pieces, piece ≠ []) →
        ∀ (σ : Type) (applet : Applet σ) (start link : Link σ) (middle after : σ),
        (applet.ensureSelected target).runFrom start = (.ok (), link) →
        (applet.card.transmit (getCommand allRulesTag [])).runFrom link.card =
          (.ok (first ++ success), middle) →
        Continues applet.card pieces middle after →
        (headerSize value.length ≤ first.length →
          ((applet.readAll target).runFrom start).1 = .ok value) ∧
        (first.length < headerSize value.length → (applet.readAll target).runFrom start =
          (.error (.unreadable (cutFlaw first.length)),
            ⟨middle, link.selected, link.sent.push (getCommand allRulesTag [])⟩))) ∧
      ∀ (reader : String) (labels : List (String × Bytes)) (start : Link Memory),
        target.aid = aid → (start.selected = some aid → start.card.selected = true) →
        start.card.rules ≠ [] → start.card.rules.flatten = value → 1 ≤ start.card.chunkSize →
        (((onCard Memory.card reader labels).readAll target).runFrom start).1 =
          if (headerSize value.length : Int) ≤ start.card.chunkSize then .ok value
          else .error (.unreadable (cutFlaw start.card.chunkSize.toNat)) := by
  obtain ⟨whole, hwhole⟩ := exists_encode_allRulesTag hvalue
  refine ⟨whole, hwhole, ?_, ?_⟩
  · intro first pieces hcut hsome hpieces σ applet start link middle after hselected hfirst hrest
    refine ⟨fun hheader => ?_, fun hheader => ?_⟩
    · exact runFrom_readAll_of_header hwhole hcut hpieces hheader hselected hfirst hrest
    · exact runFrom_readAll_of_no_header hwhole hcut hsome hheader hselected hfirst
  · rintro reader labels start htarget hstart hrules rfl hchunk
    exact runFrom_readAll_of_card rfl htarget hstart hrules hvalue hchunk

/-- A header in a piece of its own, and the value octet by octet; and the card in memory with pieces
of three octets, before anything is selected. -/
theorem readAll_cut_of_small_pieces :
    (((onCard (Recording.card []) "" []).readAll ⟨label, aid, []⟩).runFrom
      ⟨[.ok ([0xff, 0x40, 0x02] ++ success), .ok ([0xe2] ++ success), .ok ([0x00] ++ success)],
        some aid, #[]⟩).1 = .ok [0xe2, 0x00] ∧
    (((onCard (Recording.card []) "" []).readAll ⟨label, aid, []⟩).runFrom
      ⟨[.ok ([0xff] ++ success), .ok ([0x40, 0x02, 0xe2, 0x00] ++ success)], some aid, #[]⟩).1 =
        .error (.unreadable ⟨.truncatedTag, 0⟩) ∧
    (((onCard Memory.card "" []).readAll ⟨label, aid, []⟩).runFrom
      { card := { rules := [[0xe2, 0x00]], chunkSize := 3 } }).1 = .ok [0xe2, 0x00] := by
  obtain ⟨whole, hwhole, hpieces, hcard⟩ :=
    readAll_cut ⟨label, aid, []⟩ [0xe2, 0x00] (by decide)
  obtain rfl : [0xff, 0x40, 0x02, 0xe2, 0x00] = whole := Except.ok.inj hwhole
  refine ⟨?_, ?_, ?_⟩
  · have hrest : Continues (onCard (Recording.card []) "" []).card [[0xe2], [0x00]]
        [.ok ([0xe2] ++ success), .ok ([0x00] ++ success)] [] := ⟨_, rfl, _, rfl, rfl⟩
    exact (hpieces [0xff, 0x40, 0x02] [[0xe2], [0x00]] rfl (by decide) (by decide)
      _ _ _ _ _ _ (runFrom_ensureSelected rfl) rfl hrest).1 (by decide)
  · have hrest : Continues (onCard (Recording.card []) "" []).card [[0x40, 0x02, 0xe2, 0x00]]
        [.ok ([0x40, 0x02, 0xe2, 0x00] ++ success)] [] := ⟨_, rfl, rfl⟩
    rw [(hpieces [0xff] [[0x40, 0x02, 0xe2, 0x00]] rfl (by decide) (by decide)
      _ _ _ _ _ _ (runFrom_ensureSelected rfl) rfl hrest).2 (by decide)]
    rfl
  · exact hcard "" [] _ rfl nofun (by decide) rfl (by decide)

/-- A card with one rule that sends two octets at a time: the length of its answer is in the second
piece, which is never asked for. -/
theorem readAll_cut_in_header :
    (((onCard Memory.card "" []).readAll ⟨label, aid, []⟩).runFrom
      { card := { rules := [[0xe2, 0x0b, 0xe1, 0x04, 0xc0, 0x00, 0xc1, 0x00, 0xe3, 0x03, 0xd1,
          0x01, 0x01]], chunkSize := 2 } }).1 =
      .error (.unreadable ⟨.truncatedLength, 2⟩) := by
  exact runFrom_readAll_of_card rfl rfl nofun (by decide) (by decide) (by decide)

end AccessRules.Applet
