import AccessRules.Applet.Basic
import AccessRules.Proofs.Step
import AccessRules.Proofs.Tlv.Element

/-!
# Reading an answer in pieces

A card may send the answer that holds all rules in pieces.  What is read does not depend on where it
is cut, if the header of the answer is in the first piece and no piece is empty
(`runFrom_readAll_of_answer`):

1. **Pieces** — `Continues card pieces before after` says that the card sends these pieces one by
   one when it is asked for the next.  They are all fetched, by induction on them (`runFrom_fetch`).

2. **The answer** — its header, read from the first piece, says how many octets there are, so just
   these pieces are asked for (`runFrom_completeAnswer`).
-/

namespace AccessRules.Applet

open Step

variable {σ : Type} {applet : Applet σ}

/-- The outcome of an exchange is the response of the card or the lack of one. -/
theorem runFrom_exchange_eq (command : Bytes) (link : Link σ) :
    (applet.exchange command).runFrom link =
      match (applet.card.transmit command).runFrom link.card with
      | (.ok octets, after) =>
        (.ok (Response.ofOctets octets), ⟨after, link.selected, link.sent.push command⟩)
      | (.error rejection, after) =>
        (.error (.undelivered rejection), ⟨after, link.selected, link.sent.push command⟩) := by
  rw [exchange, runFrom_of]
  cases (applet.card.transmit command).runFrom link.card with
  | mk outcome after => cases outcome <;> rfl

/-- Success, as a status word. -/
def success : Bytes := [0x90, 0x00]

/-- What is taken of an answer with success. -/
theorem runFrom_exchange_of_success {command data : Bytes} {link : Link σ} {after : σ}
    (h : (applet.card.transmit command).runFrom link.card = (.ok (data ++ success), after)) :
    (applet.exchange command).runFrom link =
      (.ok ⟨data, 0x90, 0x00⟩, ⟨after, link.selected, link.sent.push command⟩) := by
  rw [runFrom_exchange_eq, h]
  show (Except.ok (Response.ofOctets (data ++ success)), _) = _
  rw [success, Response.ofOctets_append]

/-- A target that the session knows to be selected is not selected again. -/
theorem runFrom_ensureSelected {target : Selection} {link : Link σ}
    (h : link.selected = some target.aid) :
    (applet.ensureSelected target).runFrom link = (.ok (), link) := by
  show Step.runFrom (if link.selected = some target.aid then _ else _) link = _
  rw [if_pos h]
  rfl

/-! ## Pieces -/

/-- `Continues card pieces before after` — asked for the next piece again and again, the card sends
    these pieces, and is `after` then. -/
def Continues (card : Card σ) : List Bytes → σ → σ → Prop
  | [], before, after => before = after
  | piece :: pieces, before, after => ∃ middle,
    (card.transmit (getCommand nextTag [])).runFrom before = (.ok (piece ++ success), middle) ∧
      Continues card pieces middle after

/-- A piece is taken, and then fewer octets are missing. -/
theorem runFrom_fetch_of_success {piece : Bytes} (hsome : piece ≠ []) {total missing : Nat}
    (hmissing : piece.length ≤ missing) {link : Link σ} {after : σ}
    (h : (applet.card.transmit (getCommand nextTag [])).runFrom link.card =
      (.ok (piece ++ success), after)) :
    (applet.fetch total missing).runFrom link =
      (applet.fetch total (missing - piece.length) >>= fun rest => pure (piece ++ rest)).runFrom
        ⟨after, link.selected, link.sent.push (getCommand nextTag [])⟩ := by
  have hpos : 0 < piece.length := List.length_pos_iff.mpr hsome
  rw [fetch, dif_neg (by omega), runFrom_bind_of_ok (runFrom_exchange_of_success h)]
  show Step.runFrom (if _ : piece.length = 0 then _ else _) _ = _
  rw [dif_neg (by omega)]
  show Step.runFrom (if piece.length ≤ missing then _ else _) _ = _
  rw [if_pos hmissing]

/-- All pieces are fetched. -/
theorem runFrom_fetch {pieces : List Bytes} (hpieces : ∀ piece ∈ pieces, piece ≠ []) (total : Nat)
    {link : Link σ} {after : σ} (h : Continues applet.card pieces link.card after) :
    ∃ sent, (applet.fetch total pieces.flatten.length).runFrom link =
      (.ok pieces.flatten, ⟨after, link.selected, sent⟩) := by
  induction pieces generalizing link with
  | nil =>
    obtain rfl : link.card = after := h
    refine ⟨link.sent, ?_⟩
    rw [List.flatten_nil, List.length_nil, fetch, dif_pos rfl]
    rfl
  | cons piece pieces ih =>
    obtain ⟨middle, hpiece, hrest⟩ := h
    obtain ⟨hsome, hothers⟩ := List.forall_mem_cons.mp hpieces
    obtain ⟨sent, hfetch⟩ := @ih hothers
      ⟨middle, link.selected, link.sent.push (getCommand nextTag [])⟩ hrest
    -- the piece is no longer than what is missing, which is all pieces
    have hlength : (piece :: pieces).flatten.length = piece.length + pieces.flatten.length := by
      rw [List.flatten_cons, List.length_append]
    refine ⟨sent, ?_⟩
    rw [hlength, runFrom_fetch_of_success hsome (Nat.le_add_right _ _) hpiece,
      Nat.add_sub_cancel_left, runFrom_bind_of_ok hfetch]
    rfl

/-! ## The answer -/

/-- The header that is in front of a value is read, also where the value is cut off. -/
theorem readHeaderAt_of_encode {tag : Nat} {value whole first rest : Bytes}
    (hwhole : Tlv.encode tag value = .ok whole) (hcut : whole = first ++ rest)
    (hheader : whole.length ≤ first.length + value.length) :
    ∃ size, Tlv.readHeaderAt 0 first = .ok ⟨tag, value.length, size⟩ ∧
      whole.length = size + value.length ∧ whole.drop size = value := by
  obtain ⟨tagOctets, lengthOctets, htag, hlength, rfl⟩ := Tlv.encode_eq_ok_iff.mp hwhole
  have hsize : (tagOctets ++ lengthOctets ++ value).length =
      (tagOctets ++ lengthOctets).length + value.length := List.length_append
  -- the value at most is missing, so the header is in the first piece
  have hfits : (tagOctets ++ lengthOctets).length ≤ first.length := by omega
  have htake := congrArg (List.take (tagOctets ++ lengthOctets).length) hcut
  rw [List.take_left, List.take_append_of_le_length hfits] at htake
  have hfront : first = tagOctets ++ lengthOctets ++
      first.drop (tagOctets ++ lengthOctets).length := by
    calc first = first.take (tagOctets ++ lengthOctets).length ++
          first.drop (tagOctets ++ lengthOctets).length := (List.take_append_drop _ _).symm
      _ = _ := by rw [← htake]
  have hread : Tlv.readHeader first = .ok (⟨tag, value.length, tagOctets.length +
      lengthOctets.length⟩, first.drop (tagOctets ++ lengthOctets).length) :=
    Tlv.readHeader_eq_ok_iff.mpr ⟨tagOctets, lengthOctets, htag, hlength, hfront, rfl⟩
  refine ⟨tagOctets.length + lengthOctets.length, ?_, ?_, ?_⟩
  · show (((Tlv.readHeader first).mapError _).map Prod.fst) = _
    rw [hread]
    rfl
  · rw [hsize, List.length_append]
  · rw [← List.length_append]
    exact List.drop_left

/-- An answer is completed with the pieces that are missing. -/
theorem runFrom_completeAnswer {value whole first : Bytes} {pieces : List Bytes}
    (hwhole : Tlv.encode allRulesTag value = .ok whole) (hcut : whole = first ++ pieces.flatten)
    (hheader : whole.length ≤ first.length + value.length)
    (hpieces : ∀ piece ∈ pieces, piece ≠ []) {link : Link σ} {after : σ}
    (h : Continues applet.card pieces link.card after) :
    ∃ sent, (applet.completeAnswer first).runFrom link =
      (.ok value, ⟨after, link.selected, sent⟩) := by
  obtain ⟨size, hread, hlength, hdrop⟩ := readHeaderAt_of_encode hwhole hcut hheader
  have hmissing : size + value.length - first.length = pieces.flatten.length := by
    rw [← hlength, hcut, List.length_append, Nat.add_sub_cancel_left]
  have hfirst : first.length ≤ size + value.length := by
    rw [← hlength, hcut, List.length_append]
    exact Nat.le_add_right _ _
  obtain ⟨sent, hfetch⟩ := runFrom_fetch hpieces (size + value.length) h
  refine ⟨sent, ?_⟩
  rw [completeAnswer, runFrom_bind_of_ok (runFrom_lift_mapError hread _ _),
    runFrom_bind_of_ok (runFrom_require rfl _ _),
    runFrom_bind_of_ok (runFrom_require hfirst _ _)]
  show (applet.fetch (size + value.length) (size + value.length - first.length) >>= _).runFrom
    link = _
  rw [hmissing, runFrom_bind_of_ok hfetch]
  show (Except.ok ((first ++ pieces.flatten).drop size), _) = _
  rw [← hcut, hdrop]

/-- What is read of an answer in pieces is its value, wherever it is cut behind its header. -/
theorem runFrom_readAll_of_answer {target : Selection} {value whole first : Bytes}
    {pieces : List Bytes} (hwhole : Tlv.encode allRulesTag value = .ok whole)
    (hcut : whole = first ++ pieces.flatten)
    (hheader : whole.length ≤ first.length + value.length)
    (hpieces : ∀ piece ∈ pieces, piece ≠ []) {start link : Link σ} {middle after : σ}
    (hselected : (applet.ensureSelected target).runFrom start = (.ok (), link))
    (hfirst : (applet.card.transmit (getCommand allRulesTag [])).runFrom link.card =
      (.ok (first ++ success), middle))
    (h : Continues applet.card pieces middle after) :
    ∃ sent, (applet.readAll target).runFrom start =
      (.ok value, ⟨after, link.selected, sent⟩) := by
  -- an empty piece would have no header in it
  have hsome : first ≠ [] := by
    rintro rfl
    obtain ⟨size, hread, -⟩ := readHeaderAt_of_encode hwhole hcut hheader
    cases hread
  obtain ⟨sent, hrest⟩ := @runFrom_completeAnswer σ applet value whole first pieces hwhole hcut
    hheader hpieces ⟨middle, link.selected, link.sent.push (getCommand allRulesTag [])⟩ after h
  refine ⟨sent, ?_⟩
  rw [readAll, runFrom_bind_of_ok hselected,
    runFrom_bind_of_ok (runFrom_exchange_of_success hfirst)]
  show Step.runFrom (if first = [] then _ else _) _ = _
  rw [if_neg hsome, hrest]

/-- A target that is known to be selected is asked at once. -/
theorem runFrom_readAll_of_pieces {target : Selection} {value whole first : Bytes}
    {pieces : List Bytes} (hwhole : Tlv.encode allRulesTag value = .ok whole)
    (hcut : whole = first ++ pieces.flatten)
    (hheader : whole.length ≤ first.length + value.length)
    (hpieces : ∀ piece ∈ pieces, piece ≠ []) {link : Link σ} {middle after : σ}
    (hselected : link.selected = some target.aid)
    (hfirst : (applet.card.transmit (getCommand allRulesTag [])).runFrom link.card =
      (.ok (first ++ success), middle))
    (h : Continues applet.card pieces middle after) :
    ∃ sent, (applet.readAll target).runFrom link =
      (.ok value, ⟨after, link.selected, sent⟩) :=
  runFrom_readAll_of_answer hwhole hcut hheader hpieces (runFrom_ensureSelected hselected) hfirst h

end AccessRules.Applet
