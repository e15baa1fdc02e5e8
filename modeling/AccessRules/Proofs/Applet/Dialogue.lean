import AccessRules.Proofs.Applet.Reading

/-!
# Dialogues with a card

Nothing is assumed of a card here: it may answer every command with any octets or not at all.

1. **Dialogues** — a request comes to commands and the replies to them.  `Spoken` says that a
   session has gone through these turns and nothing else.

2. **Replies** — what is taken of a reply is known from its octets (`hasStatus_iff`).

3. **Fetching** — `Fetches missing turns outcome` lists all that asking for the next piece can come
   to, and a fetch comes to nothing else (`fetches_fetch`).  Each piece that is taken leaves fewer
   octets missing, so by induction on the turns there are no more of them than octets are missing,
   none is made when nothing is missing, and only pieces that add up to what is missing are taken
   (`Fetches.length_le`, `Fetches.asks`, `Fetches.eq_ok_iff`).
-/

namespace AccessRules.Applet

open Step

variable {σ : Type} {applet : Applet σ}

/-! ## Dialogues -/

/-- A command to a card and the reply to it. -/
structure Turn where
  command : Bytes
  reply : Except Rejection Bytes

/-- What the reply of a turn carries in front of its status word, nothing if there is no answer. -/
def Turn.data (turn : Turn) : Bytes :=
  match turn.reply with
  | .ok octets => (Response.ofOctets octets).data
  | .error _ => []

/-- `Dialogue card turns before after` — asked these commands one after the other the card gives
    these replies, and is `after` then. -/
inductive Dialogue (card : Card σ) : List Turn → σ → σ → Prop
  | nil (state : σ) : Dialogue card [] state state
  | cons {turn : Turn} {turns : List Turn} {before middle after : σ}
      (h : (card.transmit turn.command).runFrom before = (turn.reply, middle))
      (hrest : Dialogue card turns middle after) : Dialogue card (turn :: turns) before after

/-- `Spoken applet turns link after` — the session has come from `link` to `after` by these turns
    with the card, and nothing else. -/
structure Spoken (applet : Applet σ) (turns : List Turn) (link after : Link σ) : Prop where
  dialogue : Dialogue applet.card turns link.card after.card
  sent : after.sent.toList = link.sent.toList ++ turns.map Turn.command
  selected : after.selected = link.selected

theorem spoken_nil (link : Link σ) : Spoken applet [] link link :=
  ⟨.nil link.card, (List.append_nil _).symm, rfl⟩

/-- One more turn in front. -/
theorem Spoken.cons {turn : Turn} {turns : List Turn} {link after : Link σ} {middle : σ}
    (h : (applet.card.transmit turn.command).runFrom link.card = (turn.reply, middle))
    (hrest : Spoken applet turns ⟨middle, link.selected, link.sent.push turn.command⟩ after) :
    Spoken applet (turn :: turns) link after := by
  refine ⟨.cons h hrest.dialogue, ?_, hrest.selected⟩
  have hsent := hrest.sent
  rw [Array.toList_push, List.append_assoc] at hsent
  exact hsent

/-- One request is a dialogue of one turn. -/
theorem spoken_one {turn : Turn} {link : Link σ} {middle : σ}
    (h : (applet.card.transmit turn.command).runFrom link.card = (turn.reply, middle)) :
    Spoken applet [turn] link ⟨middle, link.selected, link.sent.push turn.command⟩ :=
  .cons h (spoken_nil _)

/-! ## Replies -/

/-- A status word that does not begin with zero is the end of the octets. -/
theorem hasStatus_iff {octets : Bytes} {sw1 sw2 : UInt8} (hsome : sw1 ≠ 0) :
    (Response.ofOctets octets).hasStatus sw1 sw2 = true ↔
      octets = (Response.ofOctets octets).data ++ [sw1, sw2] := by
  constructor
  · intro h
    simp only [Response.hasStatus, Bool.and_eq_true, decide_eq_true_eq] at h
    obtain ⟨hfirst, hsecond⟩ := h
    -- read from behind there are two octets at least, as the status word does not begin with zero
    have hback : octets = octets.reverse.reverse := octets.reverse_reverse.symm
    rw [Response.ofOctets] at *
    split at hfirst
    · rename_i last first data hoctets
      rw [hoctets] at hback hsecond
      rw [hback, ← hfirst, ← hsecond]
      simp
    · exact absurd hfirst.symm hsome
    · exact absurd hfirst.symm hsome
  · intro h
    rw [h, Response.ofOctets_append]
    simp [Response.hasStatus]

/-- An answer is successful if its status word is that of success. -/
theorem isOk_iff {octets : Bytes} :
    (Response.ofOctets octets).isOk = true ↔
      octets = (Response.ofOctets octets).data ++ success :=
  hasStatus_iff (by decide)

/-! ## Fetching -/

/-- The turn in which the card sends one more piece. -/
def sending (piece : Bytes) : Turn := ⟨getCommand nextTag [], .ok (piece ++ success)⟩

/-- The data of a piece that is sent is the piece. -/
theorem data_sending (piece : Bytes) : (sending piece).data = piece := by
  show (Response.ofOctets (piece ++ success)).data = piece
  rw [success, Response.ofOctets_append]

/-- A piece is known from the turn that sends it. -/
theorem sending_injective {piece other : Bytes} (h : sending piece = sending other) :
    piece = other := by
  have hdata := congrArg Turn.data h
  rwa [data_sending, data_sending] at hdata

/-- `Fetches missing turns outcome` — what asking for the missing octets can come to. -/
inductive Fetches : Nat → List Turn → Except AppletError Bytes → Prop
  | done : Fetches 0 [] (.ok [])
  /-- A piece is taken, and then the rest is asked for. -/
  | piece {missing : Nat} {piece : Bytes} {turns : List Turn} {outcome : Except AppletError Bytes}
      (hsome : piece ≠ []) (hfits : piece.length ≤ missing)
      (hrest : Fetches (missing - piece.length) turns outcome) :
      Fetches missing (sending piece :: turns) (outcome.map fun rest => piece ++ rest)
  /-- No piece comes, or an empty one, or one that is too long. -/
  | stopped {missing : Nat} {reply : Except Rejection Bytes} {error : AppletError}
      (hmissing : missing ≠ 0)
      (hreply : ∀ piece, reply = .ok (piece ++ success) → piece = [] ∨ missing < piece.length) :
      Fetches missing [⟨getCommand nextTag [], reply⟩] (.error error)

/-- Where no piece comes that can be taken, a fetch fails. -/
theorem runFrom_fetch_of_stopped {missing : Nat} (hmissing : missing ≠ 0) (total : Nat)
    {link : Link σ} {reply : Except Rejection Bytes} {after : σ}
    (h : (applet.card.transmit (getCommand nextTag [])).runFrom link.card = (reply, after))
    (hreply : ∀ piece, reply = .ok (piece ++ success) → piece = [] ∨ missing < piece.length) :
    ∃ error, (applet.fetch total missing).runFrom link =
      (.error error, ⟨after, link.selected, link.sent.push (getCommand nextTag [])⟩) := by
  rw [fetch, dif_neg hmissing, runFrom_bind, runFrom_exchange_eq, h]
  cases reply with
  | error rejection => exact ⟨_, rfl⟩
  | ok octets =>
    dsimp only
    rw [runFrom_bind, check]
    by_cases hok : (Response.ofOctets octets).isOk = true
    · rw [runFrom_require hok]
      dsimp only
      have hpiece := hreply (Response.ofOctets octets).data (congrArg Except.ok (isOk_iff.mp hok))
      by_cases hempty : (Response.ofOctets octets).data.length = 0
      · rw [dif_pos hempty]
        exact ⟨_, rfl⟩
      · -- a piece that is not empty is too long, by what is known of the answer
        have hlong : ¬ (Response.ofOctets octets).data.length ≤ missing := by
          rcases hpiece with hnil | hlong
          · exact absurd (congrArg List.length hnil) hempty
          · omega
        rw [dif_neg hempty, if_neg hlong]
        exact ⟨_, rfl⟩
    · rw [Step.require, if_neg hok]
      exact ⟨_, rfl⟩

/-- A fetch comes to nothing but what is listed. -/
theorem fetches_fetch (applet : Applet σ) (total missing : Nat) (link : Link σ) :
    ∃ turns, Spoken applet turns link ((applet.fetch total missing).runFrom link).2 ∧
      Fetches missing turns ((applet.fetch total missing).runFrom link).1 := by
  -- every piece that is taken has an octet at least, so fewer are missing behind it
  induction missing using Nat.strongRecOn generalizing link with
  | ind missing ih =>
    by_cases hmissing : missing = 0
    · subst hmissing
      rw [fetch, dif_pos rfl]
      exact ⟨[], spoken_nil link, .done⟩
    · obtain ⟨reply, after, hrun⟩ : ∃ reply after,
          (applet.card.transmit (getCommand nextTag [])).runFrom link.card = (reply, after) :=
        ⟨_, _, rfl⟩
      -- either a piece comes that is taken and there is less to ask for, or this turn is the last
      by_cases htaken : ∃ piece, reply = .ok (piece ++ success) ∧ piece ≠ [] ∧
          piece.length ≤ missing
      · obtain ⟨piece, rfl, hsome, hfits⟩ := htaken
        have hpos : 0 < piece.length := List.length_pos_iff.mpr hsome
        obtain ⟨turns, hturns, hfetches⟩ := ih (missing - piece.length) (by omega)
          ⟨after, link.selected, link.sent.push (getCommand nextTag [])⟩
        have hspoken := @Spoken.cons _ _ (sending piece) _ _ _ _ hrun hturns
        rw [runFrom_fetch_of_success hsome hfits hrun, ← map_eq_pure_bind, runFrom_map]
        exact ⟨sending piece :: turns, hspoken, .piece hsome hfits hfetches⟩
      · have hreply : ∀ piece, reply = .ok (piece ++ success) →
            piece = [] ∨ missing < piece.length := by
          intro piece hpiece
          by_cases hsome : piece = []
          · exact .inl hsome
          · refine .inr (Nat.lt_of_not_le fun hfits => ?_)
            exact htaken ⟨piece, hpiece, hsome, hfits⟩
        obtain ⟨error, hfetch⟩ := runFrom_fetch_of_stopped hmissing total hrun hreply
        have hspoken := @spoken_one _ applet ⟨getCommand nextTag [], reply⟩ _ _ hrun
        rw [hfetch]
        exact ⟨_, hspoken, .stopped hmissing hreply⟩

/-! ### What fetching comes to -/

/-- There are no more turns than octets are missing. -/
theorem Fetches.length_le {missing : Nat} {turns : List Turn} {outcome : Except AppletError Bytes}
    (h : Fetches missing turns outcome) : turns.length ≤ missing := by
  induction h with
  | done => exact Nat.le_refl 0
  | @piece missing piece turns outcome hsome hfits _ ih =>
    have hpos : 0 < piece.length := List.length_pos_iff.mpr hsome
    rw [List.length_cons]
    omega
  | stopped hmissing _ =>
    rw [List.length_singleton]
    omega

/-- Every turn asks for the next piece, at a time when octets are still missing. -/
theorem Fetches.asks {missing : Nat} {turns asked later : List Turn} {turn : Turn}
    {outcome : Except AppletError Bytes} (h : Fetches missing turns outcome)
    (hturns : turns = asked ++ turn :: later) :
    turn.command = getCommand nextTag [] ∧ (asked.flatMap Turn.data).length < missing := by
  induction h generalizing asked with
  | done => exact absurd hturns.symm (List.append_ne_nil_of_right_ne_nil _ (List.cons_ne_nil _ _))
  | @piece missing piece turns outcome hsome hfits _ ih =>
    have hpos : 0 < piece.length := List.length_pos_iff.mpr hsome
    cases asked with
    | nil =>
      obtain rfl := (List.cons.inj hturns).1
      refine ⟨rfl, ?_⟩
      rw [List.flatMap_nil, List.length_nil]
      omega
    | cons first asked =>
      obtain ⟨rfl, hrest⟩ := List.cons.inj hturns
      -- of the pieces before, the first one is taken off what is missing
      obtain ⟨hcommand, hmissing⟩ := ih hrest
      refine ⟨hcommand, ?_⟩
      rw [List.flatMap_cons, data_sending, List.length_append]
      omega
  | stopped hmissing _ =>
    cases asked with
    | nil =>
      obtain rfl := (List.cons.inj hturns).1
      refine ⟨rfl, ?_⟩
      rw [List.flatMap_nil, List.length_nil]
      omega
    | cons first asked =>
      have hnil := (List.cons.inj hturns).2
      exact absurd hnil.symm (List.append_ne_nil_of_right_ne_nil _ (List.cons_ne_nil _ _))

/-- What is fetched are the pieces of the turns, none of them empty, which add up to what was
    missing. -/
theorem Fetches.eq_ok_iff {missing : Nat} {turns : List Turn} {outcome : Except AppletError Bytes}
    (h : Fetches missing turns outcome) {octets : Bytes} :
    outcome = .ok octets ↔
      ∃ pieces : List Bytes, turns = pieces.map sending ∧ (∀ piece ∈ pieces, piece ≠ []) ∧
        pieces.flatten = octets ∧ octets.length = missing := by
  induction h generalizing octets with
  | done =>
    constructor
    · intro hok
      obtain rfl := Except.ok.inj hok
      exact ⟨[], rfl, nofun, rfl, rfl⟩
    · rintro ⟨pieces, -, -, -, hlength⟩
      rw [List.length_eq_zero_iff.mp hlength]
  | @piece missing piece turns outcome hsome hfits _ ih =>
    constructor
    · intro hok
      obtain ⟨rest, hrest, rfl⟩ := map_eq_ok_iff.mp hok
      obtain ⟨pieces, rfl, hpieces, rfl, hlength⟩ := ih.mp hrest
      refine ⟨piece :: pieces, rfl, List.forall_mem_cons.mpr ⟨hsome, hpieces⟩, rfl, ?_⟩
      rw [List.length_append]
      omega
    · rintro ⟨pieces, hturns, hpieces, rfl, hlength⟩
      cases pieces with
      | nil => cases hturns
      | cons first pieces =>
        obtain ⟨hfirst, hrest⟩ := List.cons.inj hturns
        obtain rfl := sending_injective hfirst
        rw [List.flatten_cons, List.length_append] at hlength
        have hothers := (List.forall_mem_cons.mp hpieces).2
        have hok := ih.mpr ⟨pieces, hrest, hothers, rfl, by omega⟩
        exact map_eq_ok_iff.mpr ⟨_, hok, rfl⟩
  | @stopped missing reply error hmissing hreply =>
    constructor
    · intro hok
      cases hok
    · rintro ⟨pieces, hturns, hpieces, rfl, hlength⟩
      -- the one turn would be the one piece that fits
      obtain ⟨piece, rfl, hpiece⟩ := List.map_eq_singleton_iff.mp hturns.symm
      have hsent : reply = .ok (piece ++ success) := (Turn.mk.inj hpiece).2.symm
      rw [List.flatten_cons, List.flatten_nil, List.append_nil] at hlength
      rcases hreply piece hsent with hnil | hlong
      · exact absurd hnil (hpieces piece List.mem_cons_self)
      · omega

end AccessRules.Applet
