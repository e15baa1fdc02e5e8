import AccessRules.Proofs.Applet.Reading
import AccessRules.Proofs.Applet.Selection
import AccessRules.Proofs.Tlv.Row

/-!
# Requests that the card in memory serves

What requests come to while the applet is selected, and the session knows it (`Ready`):

1. **Selecting** — the label of the applet leads there from every state (`runFrom_select`).

2. **Storing** — what the card stores is what it does with the one data object that it is handed
   (`ready_storeObject`).  The encoding of a rule fits into a command with its tag and its length if
   it has at most 252 octets (`exists_encode_storeTag`).

3. **Reading** — the card cuts its answer into pieces of one size (`exists_pieces`).  Six octets
   hold any header, so its rules are read back (`ready_readAll`).
-/

namespace AccessRules

namespace Applet

open Step

variable {applet : Applet Memory} {target : Selection}

/-- `Ready start rules link` — the applet is selected and the session knows it; the card holds the
    rules, and has the limit and the size of pieces that it had at the start. -/
structure Ready (start : Memory) (rules : List Bytes) (link : Link Memory) : Prop where
  session : link.selected = some aid
  selected : link.card.selected = true
  rules : link.card.rules = rules
  storeLimit : link.card.storeLimit = start.storeLimit
  chunkSize : link.card.chunkSize = start.chunkSize

variable {start : Memory} {rules : List Bytes} {link : Link Memory}

/-- A target with the identifier of the access rule application counts as selected. -/
theorem Ready.selected_target (h : Ready start rules link) (htarget : target.aid = aid) :
    link.selected = some target.aid := by
  rw [htarget]
  exact h.session

/-! ## Selecting -/

/-- A label of the applet selects it. -/
theorem runFrom_select (hcard : applet.card = Memory.card) {label : String}
    (hlabel : applet.resolve label = .ok aid) (link : Link Memory) :
    (applet.select label).runFrom link =
      (.ok ⟨label, aid, []⟩, ⟨{ link.card with selected := true }, some aid,
        link.sent.push (selectCommand aid)⟩) := by
  rw [select, hlabel, runFrom_bind_of_ok (runFrom_lift link _), runFrom_selectAid hcard,
    if_pos selectsApplet_selectCommand]

/-- Selecting the applet again changes nothing on the card. -/
theorem ready_select (hcard : applet.card = Memory.card) {label : String}
    (hlabel : applet.resolve label = .ok aid) (h : Ready start rules link) :
    ∃ after, (applet.select label).runFrom link = (.ok ⟨label, aid, []⟩, after) ∧
      Ready start rules after :=
  ⟨_, runFrom_select hcard hlabel link, rfl, rfl, h.rules, h.storeLimit, h.chunkSize⟩

/-- The applet is ready for a request of a session that was right about it before. -/
theorem ready_ensureSelected (hcard : applet.card = Memory.card) (htarget : target.aid = aid)
    {before : Link Memory} (hbefore : before.selected = some aid → before.card.selected = true) :
    ∃ after, (applet.ensureSelected target).runFrom before = (.ok (), after) ∧
      Ready before.card before.card.rules after := by
  by_cases hsession : before.selected = some target.aid
  · have hselected : before.selected = some aid := by rw [hsession, htarget]
    exact ⟨before, runFrom_ensureSelected hsession, hselected, hbefore hselected, rfl, rfl, rfl⟩
  · refine ⟨⟨{ before.card with selected := true }, some aid,
      before.sent.push (selectCommand aid)⟩, ?_, rfl, rfl, rfl, rfl, rfl⟩
    show Step.runFrom (if before.selected = some target.aid then _ else _) before = _
    rw [if_neg hsession, htarget, runFrom_bind, runFrom_selectAid hcard,
      if_pos selectsApplet_selectCommand]
    rfl

/-! ## Storing -/

/-- An object that fits into a command is handed over, and the card does with it what it does. -/
theorem ready_storeObject (hcard : applet.card = Memory.card) (htarget : target.aid = aid)
    (h : Ready start rules link) {tag : Nat} {value data : Bytes}
    (hdata : Tlv.encode tag value = .ok data) (hsize : data.length ≤ maxCommandData)
    {stored : List Bytes} (hstored : Memory.storeData data link.card =
      .ok (Memory.done, { link.card with rules := stored })) :
    ∃ after, (applet.storeObject target tag value).runFrom link = (.ok (), after) ∧
      Ready start stored after := by
  have htransmit : (applet.card.transmit (storeCommand data)).runFrom link.card =
      (.ok ([] ++ success), { link.card with rules := stored }) := by
    rw [hcard]
    show Memory.answer (storeCommand data) link.card = _
    rw [Memory.answer_storeCommand hsize, if_pos h.selected, hstored]
    rfl
  -- the session knows the target to be selected, so this is the only turn
  have hrun : (applet.storeData target data).runFrom link = (.ok ⟨[], 0x90, 0x00⟩,
      ⟨{ link.card with rules := stored }, link.selected, link.sent.push (storeCommand data)⟩) := by
    rw [storeData, runFrom_bind_of_ok (runFrom_ensureSelected (h.selected_target htarget)),
      runFrom_bind_of_ok (runFrom_require hsize _ _),
      runFrom_bind_of_ok (runFrom_exchange_of_success htransmit)]
    rfl
  have hobject : (applet.storeObject target tag value).runFrom link = (.ok (),
      ⟨{ link.card with rules := stored }, link.selected, link.sent.push (storeCommand data)⟩) := by
    rw [storeObject, runFrom_bind_of_ok (runFrom_lift_mapError hdata _ _),
      runFrom_bind_of_ok hrun]
    rfl
  exact ⟨_, hobject, h.session, h.selected, rfl, h.storeLimit, h.chunkSize⟩

/-- Deleting takes all rules out. -/
theorem ready_deleteAll (hcard : applet.card = Memory.card) (htarget : target.aid = aid)
    (h : Ready start rules link) :
    ∃ after, (applet.deleteAll target).runFrom link = (.ok (), after) ∧ Ready start [] after := by
  have hdata : Tlv.encode deleteTag [] = .ok [0xf1, 0x00] := rfl
  have hstored := Memory.storeData_delete hdata link.card
  exact ready_storeObject hcard htarget h hdata (by decide) hstored

/-- The most octets that the encoding of a rule may have to be stored. -/
def maxStored : Nat := 252

/-- A length of at most 255 is written in one or two octets. -/
theorem lengthSize_le_two {length : Nat} (h : length ≤ 0xff) : Tlv.lengthSize length ≤ 2 := by
  unfold Tlv.lengthSize octetCount
  split
  · omega
  · exact Nat.le_refl 2

/-- So many octets fit into a command with their tag and their length. -/
theorem exists_encode_storeTag {octets : Bytes} (h : octets.length ≤ maxStored) :
    ∃ data, Tlv.encode storeTag octets = .ok data ∧ data.length ≤ maxCommandData := by
  simp only [maxStored] at h
  have hshort : octets.length ≤ 0xffffff := by omega
  obtain ⟨length, hlength⟩ := Tlv.exists_encodeLength_iff.mpr hshort
  have htag : Tlv.encodeTag storeTag = .ok [0xf0] := rfl
  have hsize := lengthSize_le_two (show octets.length ≤ 0xff by omega)
  refine ⟨_, Tlv.encode_eq_ok_iff.mpr ⟨_, length, htag, hlength, rfl⟩, ?_⟩
  rw [List.length_append, List.length_append, Tlv.length_of_encodeLength hlength, maxCommandData,
    List.length_singleton]
  omega

/-- A rule with a new key is sent, and kept as far as the limit of the card allows. -/
theorem ready_send (hcard : applet.card = Memory.card) (htarget : target.aid = aid)
    {known : List Rule} {encodings : List Bytes} (hwritten : Memory.Written known encodings)
    (h : Ready start (Memory.within start.storeLimit encodings) link)
    (hvalid : ∀ rule ∈ known, rule.Valid) {rule : Rule} (hrule : rule.Valid)
    (hnew : rule.key ∉ known.map Rule.key) {octets : Bytes} (hencode : rule.encode = .ok octets)
    (hsize : octets.length ≤ maxStored) :
    ∃ after, (applet.send target octets).runFrom link = (.ok (), after) ∧
      Ready start (Memory.within start.storeLimit (encodings ++ [octets])) after := by
  obtain ⟨data, hdata, hfits⟩ := exists_encode_storeTag hsize
  -- what the card holds so far, in the words of the lemma about the card
  have hkept : link.card.rules = Memory.within link.card.storeLimit encodings := by
    rw [h.storeLimit]
    exact h.rules
  have hstored : Memory.storeData data link.card = .ok (Memory.done, { link.card with
      rules := Memory.within start.storeLimit (encodings ++ [octets]) }) := by
    rw [← h.storeLimit]
    exact Memory.storeData_of_new hwritten hkept hvalid hrule hnew hencode hdata
  obtain ⟨after, hrun, hafter⟩ := ready_storeObject hcard htarget h hdata hfits hstored
  refine ⟨after, ?_, hafter⟩
  rw [send, cut_of_encode hencode]
  show (applet.storeObject target storeTag octets >>= fun _ => pure ()).runFrom link = _
  rw [runFrom_bind_of_ok hrun]
  rfl

end Applet

/-! ## Reading -/

namespace Memory

/-- A pending answer is sent in pieces that are not empty. -/
theorem exists_continues {memory : Memory} (hchunk : 1 ≤ memory.chunkSize)
    (hselected : memory.selected = true) :
    ∃ pieces, pieces.flatten = memory.pending ∧ (∀ piece ∈ pieces, piece ≠ []) ∧
      Applet.Continues card pieces memory { memory with pending := [] } := by
  -- every piece takes an octet at least, so fewer are pending behind it
  induction hlength : memory.pending.length using Nat.strongRecOn generalizing memory with
  | ind length ih =>
    by_cases hpending : memory.pending = []
    · refine ⟨[], hpending.symm, nofun, ?_⟩
      show memory = { memory with pending := [] }
      rw [← hpending]
    · have hsize : pieceSize memory.chunkSize memory.pending.length = memory.chunkSize.toNat :=
        if_pos (by omega)
      have hpos : 0 < memory.pending.length := List.length_pos_iff.mpr hpending
      obtain ⟨pieces, hflatten, hpieces, hrest⟩ := @ih
        (memory.pending.drop memory.chunkSize.toNat).length (by rw [List.length_drop]; omega)
        { memory with pending := memory.pending.drop memory.chunkSize.toNat } hchunk hselected rfl
      refine ⟨memory.pending.take memory.chunkSize.toNat :: pieces, ?_, ?_, ?_⟩
      · rw [List.flatten_cons, hflatten]
        exact List.take_append_drop _ _
      · refine List.forall_mem_cons.mpr ⟨?_, hpieces⟩
        refine List.length_pos_iff.mp ?_
        rw [List.length_take]
        omega
      · refine ⟨_, ?_, hrest⟩
        rw [← hsize]
        exact answer_next hselected hpending

/-- The answer that holds all rules is sent in pieces of one size, but for a shorter last one. -/
theorem exists_pieces {memory : Memory} (hchunk : 1 ≤ memory.chunkSize)
    (hselected : memory.selected = true) (hrules : memory.rules ≠ []) {whole : Bytes}
    (hwhole : Tlv.encode Applet.allRulesTag memory.rules.flatten = .ok whole) :
    ∃ pieces middle, whole = whole.take memory.chunkSize.toNat ++ pieces.flatten ∧
      (∀ piece ∈ pieces, piece ≠ []) ∧
      (card.transmit (Applet.getCommand Applet.allRulesTag [])).runFrom memory =
        (.ok (whole.take memory.chunkSize.toNat ++ Applet.success), middle) ∧
      Applet.Continues card pieces middle { memory with pending := [] } := by
  have hpiece : pieceSize memory.chunkSize whole.length = memory.chunkSize.toNat :=
    if_pos (by omega)
  have hfirst := answer_all hselected hrules hwhole
  rw [hpiece] at hfirst
  obtain ⟨pieces, hflatten, hpieces, hrest⟩ := @exists_continues
    { memory with pending := whole.drop memory.chunkSize.toNat } hchunk hselected
  refine ⟨pieces, _, ?_, hpieces, hfirst, hrest⟩
  rw [hflatten]
  exact (List.take_append_drop _ _).symm

end Memory

namespace Applet

open Step

variable {applet : Applet Memory} {target : Selection} {start : Memory} {rules : List Bytes}
  {link : Link Memory}

/-- How many octets the header in front of all rules has, with `length` octets behind it. -/
def headerSize (length : Nat) : Nat := 2 + Tlv.lengthSize length

/-- The shortest header that announces all rules has three octets, and the longest six. -/
theorem headerSize_bounds (length : Nat) : 3 ≤ headerSize length ∧ headerSize length ≤ 6 := by
  have hpos := octetCount_pos length
  have hcount := octetCount_le length
  unfold headerSize Tlv.lengthSize
  split <;> omega

/-- Rules up to the size that an encoding has are one answer. -/
theorem exists_encode_allRulesTag {value : Bytes} (h : value.length ≤ 0xffffff) :
    ∃ whole, Tlv.encode allRulesTag value = .ok whole :=
  Tlv.exists_encode_iff.mpr ⟨⟨[0xff, 0x40], rfl⟩, h⟩

/-- The answer that holds all rules is the header and the rules. -/
theorem length_of_encode_allRulesTag {value whole : Bytes}
    (h : Tlv.encode allRulesTag value = .ok whole) :
    whole.length = headerSize value.length + value.length := by
  obtain ⟨tag, length, htag, hlength, rfl⟩ := Tlv.encode_eq_ok_iff.mp h
  obtain rfl : [0xff, 0x40] = tag := Except.ok.inj htag
  rw [List.length_append, List.length_append, Tlv.length_of_encodeLength hlength]
  rfl

/-- The rules on the card are read. -/
theorem ready_readAll (hcard : applet.card = Memory.card) (htarget : target.aid = aid)
    (hchunk : 6 ≤ start.chunkSize) (hsize : rules.flatten.length ≤ 0xffffff)
    (h : Ready start rules link) :
    ∃ after, (applet.readAll target).runFrom link = (.ok rules.flatten, after) ∧
      Ready start rules after := by
  have hsession := h.selected_target htarget
  by_cases hrules : rules = []
  -- without rules the card has nothing to answer with, and says so
  · have hanswer : (applet.exchange (getCommand allRulesTag [])).runFrom link =
        (.ok ⟨[], 0x6a, 0x88⟩,
          ⟨link.card, link.selected, link.sent.push (getCommand allRulesTag [])⟩) := by
      rw [runFrom_exchange hcard, Memory.answer_all_of_nil h.selected (h.rules.trans hrules)]
      rfl
    refine ⟨⟨link.card, link.selected, link.sent.push (getCommand allRulesTag [])⟩, ?_, h.session,
      h.selected, h.rules, h.storeLimit, h.chunkSize⟩
    rw [readAll, runFrom_bind_of_ok (runFrom_ensureSelected hsession),
      runFrom_bind_of_ok hanswer, hrules]
    rfl
  · obtain ⟨whole, hwhole⟩ := exists_encode_allRulesTag hsize
    have hlength := length_of_encode_allRulesTag hwhole
    have hbounds := headerSize_bounds rules.flatten.length
    have hchunk' : 6 ≤ link.card.chunkSize := by
      rw [h.chunkSize]
      exact hchunk
    obtain rfl := h.rules
    obtain ⟨pieces, middle, hcut, hpieces, hfirst, hrest⟩ :=
      Memory.exists_pieces (by omega) h.selected hrules hwhole
    -- the first piece holds the whole header, since a chunk has six octets at least
    have hheader : whole.length ≤
        (whole.take link.card.chunkSize.toNat).length + link.card.rules.flatten.length := by
      rw [List.length_take]
      omega
    rw [← hcard] at hfirst hrest
    obtain ⟨sent, hread⟩ := runFrom_readAll_of_pieces hwhole hcut hheader hpieces hsession
      hfirst hrest
    exact ⟨_, hread, h.session, h.selected, h.rules, h.storeLimit, h.chunkSize⟩

end Applet

end AccessRules
