import AccessRules.Card.Recording
import AccessRules.Proofs.Applet.Dialogue

/-!
# What is read is whole

Whatever a card answers, reading all rules gives the value of one complete answer or fails
(`readAll_whole`):

1. **Headers** — a header that is read from a first piece is the header of everything that begins
   with it, so a complete answer is encoded from its value exactly if it is as long as its header
   says (`encode_append_eq_ok_iff`).

2. **Reading** — `Reads turns outcome` lists all that the reply to the first command can lead to,
   and reading all rules comes to nothing else (`reads_readAll`).  What is known of fetching the
   rest carries over: what is read is the value of the pieces (`Reads.eq_ok_iff`), there are no
   more turns than octets are announced and the first one (`Reads.length_le`), and nothing is asked
   for that is not announced (`Reads.asks`).
-/

namespace AccessRules.Applet

open Step

variable {σ : Type} {applet : Applet σ}

/-! ## Headers -/

/-- The header in front of octets, if one can be read. -/
def header? (octets : Bytes) : Option Tlv.Header := (Tlv.readHeaderAt 0 octets).toOption

/-- There is a header in front where one can be read. -/
theorem header?_eq_some_iff {octets : Bytes} {header : Tlv.Header} :
    header? octets = some header ↔ Tlv.readHeaderAt 0 octets = .ok header := by
  rw [header?]
  cases Tlv.readHeaderAt 0 octets with
  | error flaw => exact ⟨nofun, nofun⟩
  | ok found => exact ⟨fun h => congrArg Except.ok (Option.some.inj h), fun h => by rw [h]; rfl⟩

/-- A header in front of the octets is followed by whatever rest they have. -/
theorem readHeaderAt_zero_eq_ok_iff {octets : Bytes} {header : Tlv.Header} :
    Tlv.readHeaderAt 0 octets = .ok header ↔
      ∃ rest, Tlv.readHeader octets = .ok (header, rest) := by
  show ((Tlv.readHeader octets).mapError _).map Prod.fst = _ ↔ _
  rw [map_eq_ok_iff]
  constructor
  · rintro ⟨⟨_, rest⟩, h, rfl⟩
    exact ⟨rest, mapError_eq_ok_iff.mp h⟩
  · rintro ⟨rest, h⟩
    exact ⟨_, mapError_eq_ok_iff.mpr h, rfl⟩

/-- The octets are those of the header and those behind it. -/
theorem length_of_readHeader {first front : Bytes} {header : Tlv.Header}
    (h : Tlv.readHeader first = .ok (header, front)) :
    first.length = header.size + front.length := by
  obtain ⟨tag, length, -, -, rfl, hsize⟩ := Tlv.readHeader_eq_ok_iff.mp h
  rw [List.length_append, List.length_append, hsize]

/-- Behind the header comes what is behind it in the first piece, and then the rest. -/
theorem drop_size_of_readHeader {first front : Bytes} {header : Tlv.Header}
    (h : Tlv.readHeader first = .ok (header, front)) (more : Bytes) :
    (first ++ more).drop header.size = front ++ more := by
  obtain ⟨tag, length, -, -, rfl, hsize⟩ := Tlv.readHeader_eq_ok_iff.mp h
  rw [hsize, ← List.length_append, List.append_assoc, List.drop_left]

/-- Octets that begin with a header are an encoding if there are as many behind the header as it
    says. -/
theorem encode_append_eq_ok_iff {first front : Bytes} {header : Tlv.Header}
    (h : Tlv.readHeader first = .ok (header, front)) {octets more : Bytes} :
    Tlv.encode header.tag octets = .ok (first ++ more) ↔
      octets = front ++ more ∧ octets.length = header.length := by
  obtain ⟨tag, length, htag, hlength, rfl, -⟩ := Tlv.readHeader_eq_ok_iff.mp h
  rw [Tlv.encode_eq_ok_iff]
  constructor
  · rintro ⟨tag', length', htag', hlength', hwhole⟩
    obtain rfl : tag = tag' := Except.ok.inj (htag.symm.trans htag')
    simp only [List.append_assoc, List.append_cancel_left_eq] at hwhole
    -- the same octets read as a length in two ways
    have hread := Tlv.readLength_of_encodeLength hlength (front ++ more)
    rw [hwhole, Tlv.readLength_of_encodeLength hlength' octets] at hread
    obtain ⟨hsame, hrest⟩ := Prod.mk.inj (Except.ok.inj hread)
    exact ⟨hrest, hsame⟩
  · rintro ⟨rfl, hsame⟩
    refine ⟨tag, length, htag, ?_, ?_⟩
    · rw [hsame]
      exact hlength
    · simp only [List.append_assoc]

/-! ## Reading -/

/-- `SaysNothing octets` — the reply is that there are no rules: that the data were not found, or
    success without data. -/
def SaysNothing (octets : Bytes) : Prop :=
  (∃ data, octets = data ++ [0x6a, 0x88]) ∨ octets = success

/-- `Announces first header` — the first piece of an answer begins with this header of all rules,
    and is not longer than the header says. -/
structure Announces (first : Bytes) (header : Tlv.Header) : Prop where
  read : Tlv.readHeaderAt 0 first = .ok header
  tag_eq : header.tag = allRulesTag
  fits : first.length ≤ header.size + header.length

/-- The turn in which the card is asked for all rules. -/
def asking (reply : Except Rejection Bytes) : Turn := ⟨getCommand allRulesTag [], reply⟩

/-- `Reads turns outcome` — what asking for all rules can come to. -/
inductive Reads : List Turn → Except AppletError Bytes → Prop
  | nothing {octets : Bytes} (h : SaysNothing octets) : Reads [asking (.ok octets)] (.ok [])
  /-- The rest of what is announced is asked for. -/
  | answered {first : Bytes} {header : Tlv.Header} {turns : List Turn}
      {outcome : Except AppletError Bytes} (h : Announces first header)
      (hrest : Fetches (header.size + header.length - first.length) turns outcome) :
      Reads (asking (.ok (first ++ success)) :: turns)
        (outcome.map fun rest => (first ++ rest).drop header.size)
  /-- The reply is neither. -/
  | stopped {reply : Except Rejection Bytes} {error : AppletError}
      (hnothing : ∀ octets, reply = .ok octets → ¬ SaysNothing octets)
      (hfirst : ∀ first header, reply = .ok (first ++ success) → ¬ Announces first header) :
      Reads [asking reply] (.error error)

/-- Octets that say nothing and end in success are nothing but that. -/
theorem eq_nil_of_saysNothing {first : Bytes} (h : SaysNothing (first ++ success)) :
    first = [] := by
  rcases h with ⟨data, hdata⟩ | hsuccess
  · have hwords := (List.append_inj' hdata rfl).2
    exact absurd hwords (by decide)
  · exact List.append_left_eq_self.mp hsuccess

/-- No octets announce nothing. -/
theorem Announces.ne_nil {first : Bytes} {header : Tlv.Header} (h : Announces first header) :
    first ≠ [] := by
  rintro rfl
  obtain ⟨rest, hread⟩ := readHeaderAt_zero_eq_ok_iff.mp h.read
  cases hread

/-- The whole data object announces itself. -/
theorem announces_of_encode {octets whole : Bytes}
    (h : Tlv.encode allRulesTag octets = .ok whole) : ∃ header, Announces whole header := by
  obtain ⟨size, hread, hlength, -⟩ := readHeaderAt_of_encode h (List.append_nil whole).symm
    (Nat.le_add_right _ _)
  exact ⟨_, hread, rfl, Nat.le_of_eq hlength⟩

/-- What is announced is fetched. -/
theorem runFrom_completeAnswer_of_announces {first : Bytes} {header : Tlv.Header}
    (h : Announces first header) (link : Link σ) :
    (applet.completeAnswer first).runFrom link =
      ((applet.fetch (header.size + header.length)
        (header.size + header.length - first.length)).runFrom link).map
          (Except.map fun rest => (first ++ rest).drop header.size) id := by
  rw [completeAnswer, runFrom_bind_of_ok (runFrom_lift_mapError h.read _ _),
    runFrom_bind_of_ok (runFrom_require h.tag_eq _ _),
    runFrom_bind_of_ok (runFrom_require h.fits _ _), ← map_eq_pure_bind, runFrom_map]
  rfl

/-- Where nothing is announced, completing an answer fails. -/
theorem runFrom_completeAnswer_of_not {first : Bytes} (h : ∀ header, ¬ Announces first header)
    (link : Link σ) :
    ∃ error, (applet.completeAnswer first).runFrom link = (.error error, link) := by
  rw [completeAnswer, runFrom_bind]
  cases hread : Tlv.readHeaderAt 0 first with
  | error flaw => exact ⟨_, rfl⟩
  | ok header =>
    rw [runFrom_lift_mapError rfl]
    dsimp only
    by_cases htag : header.tag = allRulesTag
    · rw [runFrom_bind_of_ok (runFrom_require htag _ _), runFrom_bind]
      by_cases hfits : first.length ≤ header.size + header.length
      · exact absurd ⟨hread, htag, hfits⟩ (h header)
      · rw [Step.require, if_neg hfits]
        exact ⟨_, rfl⟩
    · rw [runFrom_bind, Step.require, if_neg htag]
      exact ⟨_, rfl⟩

/-- What comes after success: nothing more without data, and otherwise the rest of the answer. -/
theorem runFrom_readAll_of_success {target : Selection} {start link : Link σ} {first : Bytes}
    {middle : σ} (hselected : (applet.ensureSelected target).runFrom start = (.ok (), link))
    (hreply : (applet.card.transmit (getCommand allRulesTag [])).runFrom link.card =
      (.ok (first ++ success), middle)) :
    (applet.readAll target).runFrom start =
      (if first = [] then pure [] else applet.completeAnswer first).runFrom
        ⟨middle, link.selected, link.sent.push (getCommand allRulesTag [])⟩ := by
  rw [readAll, runFrom_bind_of_ok hselected,
    runFrom_bind_of_ok (runFrom_exchange_of_success hreply)]
  rfl

/-- Without success nothing more is asked for: the reply says that there is nothing, or reading
    fails. -/
theorem reads_readAll_of_not_success {target : Selection} {start link : Link σ}
    {reply : Except Rejection Bytes} {middle : σ}
    (hselected : (applet.ensureSelected target).runFrom start = (.ok (), link))
    (hreply : (applet.card.transmit (getCommand allRulesTag [])).runFrom link.card =
      (reply, middle))
    (hfailed : ∀ first, reply ≠ .ok (first ++ success)) :
    ((applet.readAll target).runFrom start).2 =
        ⟨middle, link.selected, link.sent.push (getCommand allRulesTag [])⟩ ∧
      Reads [asking reply] ((applet.readAll target).runFrom start).1 := by
  have hfirst : ∀ first header, reply = .ok (first ++ success) → ¬ Announces first header :=
    fun first _ hsuccess => absurd hsuccess (hfailed first)
  rw [readAll, runFrom_bind_of_ok hselected, runFrom_bind, runFrom_exchange_eq, hreply]
  cases reply with
  | error rejection =>
    refine ⟨rfl, .stopped ?_ hfirst⟩
    intro octets hoctets
    cases hoctets
  | ok octets =>
    dsimp only
    by_cases hmissing : (Response.ofOctets octets).hasStatus 0x6a 0x88 = true
    · rw [if_pos hmissing]
      have hoctets := (hasStatus_iff (by decide)).mp hmissing
      exact ⟨rfl, .nothing (.inl ⟨_, hoctets⟩)⟩
    · -- success would contradict the hypothesis, so the check fails
      have hok : ¬ (Response.ofOctets octets).isOk = true :=
        fun hok => hfailed _ (congrArg Except.ok (isOk_iff.mp hok))
      rw [if_neg hmissing, runFrom_bind, check, Step.require, if_neg hok]
      refine ⟨rfl, .stopped ?_ hfirst⟩
      intro other hother
      obtain rfl := Except.ok.inj hother
      -- the two ways to say that there are no rules are dealt with above
      rintro (⟨data, rfl⟩ | rfl)
      · rw [Response.ofOctets_append] at hmissing
        exact hmissing rfl
      · exact hfailed [] rfl

/-- Reading all rules comes to nothing but what is listed. -/
theorem reads_readAll {target : Selection} {start link : Link σ}
    (hselected : (applet.ensureSelected target).runFrom start = (.ok (), link)) :
    ∃ turns, Spoken applet turns link ((applet.readAll target).runFrom start).2 ∧
      Reads turns ((applet.readAll target).runFrom start).1 := by
  obtain ⟨reply, middle, hreply⟩ : ∃ reply middle,
      (applet.card.transmit (getCommand allRulesTag [])).runFrom link.card = (reply, middle) :=
    ⟨_, _, rfl⟩
  have hone := @spoken_one _ applet (asking reply) _ _ hreply
  by_cases hsuccess : ∃ first, reply = .ok (first ++ success)
  · obtain ⟨first, rfl⟩ := hsuccess
    rw [runFrom_readAll_of_success hselected hreply]
    by_cases hempty : first = []
    · subst hempty
      exact ⟨_, hone, .nothing (.inr rfl)⟩
    · rw [if_neg hempty]
      by_cases hheader : ∃ header, Announces first header
      · -- the rest is asked for
        obtain ⟨header, hannounces⟩ := hheader
        obtain ⟨turns, hturns, hfetches⟩ := fetches_fetch applet (header.size + header.length)
          (header.size + header.length - first.length)
          ⟨middle, link.selected, link.sent.push (getCommand allRulesTag [])⟩
        have hspoken := @Spoken.cons _ _ (asking (.ok (first ++ success))) _ _ _ _ hreply hturns
        rw [runFrom_completeAnswer_of_announces hannounces]
        exact ⟨_, hspoken, .answered hannounces hfetches⟩
      · -- the header is cut, or not the one asked for, or too much follows it
        have hnone := not_exists.mp hheader
        obtain ⟨error, hfails⟩ := runFrom_completeAnswer_of_not hnone
          ⟨middle, link.selected, link.sent.push (getCommand allRulesTag [])⟩
        rw [hfails]
        refine ⟨_, hone, .stopped ?_ ?_⟩
        · intro other hother hnothing
          obtain rfl := Except.ok.inj hother
          exact hempty (eq_nil_of_saysNothing hnothing)
        · intro other header hother
          obtain rfl := List.append_cancel_right (Except.ok.inj hother)
          exact hnone header
  · obtain ⟨hafter, hreads⟩ := reads_readAll_of_not_success hselected hreply
      (not_exists.mp hsuccess)
    rw [hafter]
    exact ⟨_, hone, hreads⟩

/-! ### What reading comes to -/

/-- The header in front of what the first of the turns carries. -/
def announced? (turns : List Turn) : Option Tlv.Header :=
  turns.head?.bind fun turn => header? turn.data

/-- The data of a successful reply is what stands before the status word. -/
theorem data_asking (first : Bytes) : (asking (.ok (first ++ success))).data = first := by
  show (Response.ofOctets (first ++ success)).data = first
  rw [success, Response.ofOctets_append]

/-- A turn that asks for all rules is told by its reply. -/
theorem asking_injective {reply other : Except Rejection Bytes} (h : asking reply = asking other) :
    reply = other := (Turn.mk.inj h).2

/-- What the first reply announces is what the turns announce. -/
theorem Announces.announced?_eq {first : Bytes} {header : Tlv.Header}
    (h : Announces first header) (turns : List Turn) :
    announced? (asking (.ok (first ++ success)) :: turns) = some header := by
  show header? (asking (.ok (first ++ success))).data = some header
  rw [data_asking]
  exact header?_eq_some_iff.mpr h.read

/-- There are no more turns than octets are announced, and the first one. -/
theorem Reads.length_le {turns : List Turn} {outcome : Except AppletError Bytes}
    (h : Reads turns outcome) :
    turns.length ≤ ((announced? turns).map Tlv.Header.length).getD 0 + 1 := by
  cases h with
  | nothing _ => exact Nat.le_add_left 1 _
  | @answered first header turns outcome hannounces hrest =>
    have hfetched := hrest.length_le
    obtain ⟨front, hread⟩ := readHeaderAt_zero_eq_ok_iff.mp hannounces.read
    have hfirst := length_of_readHeader hread
    rw [hannounces.announced?_eq, List.length_cons]
    show turns.length + 1 ≤ header.length + 1
    omega
  | stopped _ _ => exact Nat.le_add_left 1 _

/-- All rules are asked for first, and then the next piece, but only at a time when fewer octets
    have come than are announced. -/
theorem Reads.asks {turns asked later : List Turn} {turn : Turn}
    {outcome : Except AppletError Bytes} (h : Reads turns outcome)
    (hturns : turns = asked ++ turn :: later) :
    asked = [] ∧ turn.command = getCommand allRulesTag [] ∨
      turn.command = getCommand nextTag [] ∧ ∃ header, announced? turns = some header ∧
        (asked.flatMap Turn.data).length < header.size + header.length := by
  cases asked with
  | nil =>
    refine .inl ⟨rfl, ?_⟩
    cases h <;> obtain rfl := (List.cons.inj hturns).1 <;> rfl
  | cons front asked =>
    cases h with
    | nothing _ =>
      have hnil := (List.cons.inj hturns).2
      exact absurd hnil.symm (List.append_ne_nil_of_right_ne_nil _ (List.cons_ne_nil _ _))
    | @answered first header turns outcome hannounces hrest =>
      obtain ⟨rfl, hothers⟩ := List.cons.inj hturns
      obtain ⟨hcommand, hmissing⟩ := hrest.asks hothers
      refine .inr ⟨hcommand, header, hannounces.announced?_eq _, ?_⟩
      rw [List.flatMap_cons, data_asking, List.length_append]
      omega
    | stopped _ _ =>
      have hnil := (List.cons.inj hturns).2
      exact absurd hnil.symm (List.append_ne_nil_of_right_ne_nil _ (List.cons_ne_nil _ _))

/-- What is read is nothing if the card says so, and otherwise what the pieces of the turns, none of
    them empty, are the encoding of. -/
theorem Reads.eq_ok_iff {turns : List Turn} {outcome : Except AppletError Bytes}
    (h : Reads turns outcome) {octets : Bytes} :
    outcome = .ok octets ↔
      (∃ reply, turns = [asking (.ok reply)] ∧ SaysNothing reply ∧ octets = []) ∨
        ∃ (first : Bytes) (pieces : List Bytes),
          turns = asking (.ok (first ++ success)) :: pieces.map sending ∧ first ≠ [] ∧
            (∀ piece ∈ pieces, piece ≠ []) ∧
            Tlv.encode allRulesTag octets = .ok (first ++ pieces.flatten) := by
  cases h with
  | @nothing reply hnothing =>
    constructor
    · intro hok
      exact .inl ⟨reply, rfl, hnothing, (Except.ok.inj hok).symm⟩
    · rintro (⟨-, -, -, rfl⟩ | ⟨first, pieces, hturns, hsome, -, -⟩)
      · rfl
      · obtain rfl := Except.ok.inj (asking_injective (List.cons.inj hturns).1)
        exact absurd (eq_nil_of_saysNothing hnothing) hsome
  | @answered first header turns outcome hannounces hrest =>
    obtain ⟨front, hread⟩ := readHeaderAt_zero_eq_ok_iff.mp hannounces.read
    have hfirst := length_of_readHeader hread
    have hfits := hannounces.fits
    have hwhole := @encode_append_eq_ok_iff _ _ _ hread octets
    rw [hannounces.tag_eq] at hwhole
    constructor
    · intro hok
      obtain ⟨rest, hrests, rfl⟩ := map_eq_ok_iff.mp hok
      obtain ⟨pieces, rfl, hpieces, rfl, hlength⟩ := hrest.eq_ok_iff.mp hrests
      refine .inr ⟨first, pieces, rfl, hannounces.ne_nil, hpieces, hwhole.mpr ?_⟩
      rw [drop_size_of_readHeader hread]
      refine ⟨rfl, ?_⟩
      rw [List.length_append]
      omega
    · rintro (⟨reply, hturns, hnothing, -⟩ | ⟨other, pieces, hturns, -, hpieces, hencode⟩)
      · obtain rfl := Except.ok.inj (asking_injective (List.cons.inj hturns).1)
        exact absurd (eq_nil_of_saysNothing hnothing) hannounces.ne_nil
      · obtain ⟨hsame, hothers⟩ := List.cons.inj hturns
        obtain rfl := List.append_cancel_right (Except.ok.inj (asking_injective hsame))
        obtain ⟨rfl, hlength⟩ := hwhole.mp hencode
        rw [List.length_append] at hlength
        have hrests := hrest.eq_ok_iff.mpr ⟨pieces, hothers, hpieces, rfl, by omega⟩
        rw [hrests, ← drop_size_of_readHeader hread]
        rfl
  | @stopped reply error hnothing hnone =>
    constructor
    · intro hok
      cases hok
    · rintro (⟨other, hturns, hother, -⟩ | ⟨first, pieces, hturns, -, -, hencode⟩)
      · exact absurd hother (hnothing _ (asking_injective (List.cons.inj hturns).1))
      · obtain ⟨hsame, hothers⟩ := List.cons.inj hturns
        obtain rfl := List.map_eq_nil_iff.mp hothers.symm
        obtain rfl := asking_injective hsame
        -- all of the answer would be there at once
        rw [List.flatten_nil, List.append_nil] at hencode
        obtain ⟨header, hannounces⟩ := announces_of_encode hencode
        exact absurd hannounces (hnone first header rfl)

/-- What is read with the applet selected, whatever the card answers: nothing if it says that there
    is nothing, and else the value of the one answer that all pieces make up, each with success and
    none of them empty.  Otherwise reading fails.  The next piece is asked for only while octets of
    what was announced are missing, so there is at most one turn for each of them and the first. -/
theorem readAll_whole {target : Selection} {start link : Link σ}
    (hselected : (applet.ensureSelected target).runFrom start = (.ok (), link)) :
    ∃ turns, Spoken applet turns link ((applet.readAll target).runFrom start).2 ∧
      (∀ octets, ((applet.readAll target).runFrom start).1 = .ok octets ↔
        (∃ reply, turns = [asking (.ok reply)] ∧ SaysNothing reply ∧ octets = []) ∨
          ∃ (first : Bytes) (pieces : List Bytes),
            turns = asking (.ok (first ++ success)) :: pieces.map sending ∧ first ≠ [] ∧
              (∀ piece ∈ pieces, piece ≠ []) ∧
              Tlv.encode allRulesTag octets = .ok (first ++ pieces.flatten)) ∧
      (∀ asked turn later, turns = asked ++ turn :: later →
        asked = [] ∧ turn.command = getCommand allRulesTag [] ∨
          turn.command = getCommand nextTag [] ∧ ∃ header, announced? turns = some header ∧
            (asked.flatMap Turn.data).length < header.size + header.length) ∧
      turns.length ≤ ((announced? turns).map Tlv.Header.length).getD 0 + 1 := by
  obtain ⟨turns, hspoken, hreads⟩ := reads_readAll hselected
  refine ⟨turns, hspoken, ?_, ?_, hreads.length_le⟩
  · intro octets
    exact hreads.eq_ok_iff
  · intro asked turn later hturns
    exact hreads.asks hturns

/-- An answer that a card sends in two pieces: the pieces of the turns are its encoding. -/
theorem readAll_whole_of_two_pieces :
    let applet := onCard (Recording.card []) "" []
    let link : Link Recording :=
      ⟨[.ok ([0xff, 0x40, 0x02, 0xe2] ++ success), .ok ([0x00] ++ success)], some aid, #[]⟩
    let run := (applet.readAll ⟨label, aid, []⟩).runFrom link
    run.1 = .ok [0xe2, 0x00] ∧
      ∃ (first : Bytes) (pieces : List Bytes),
        Spoken applet (asking (.ok (first ++ success)) :: pieces.map sending) link run.2 ∧
          first ++ pieces.flatten = [0xff, 0x40, 0x02, 0xe2, 0x00] := by
  intro applet link run
  have hselected : link.selected = some aid := rfl
  have hencode : Tlv.encode allRulesTag [0xe2, 0x00] = .ok [0xff, 0x40, 0x02, 0xe2, 0x00] := rfl
  have hcontinues : Continues applet.card [[0x00]] [.ok ([0x00] ++ success)] [] := ⟨[], rfl, rfl⟩
  obtain ⟨sent, hrun⟩ := @runFrom_readAll_of_pieces _ applet ⟨label, aid, []⟩ _ _
    [0xff, 0x40, 0x02, 0xe2] [[0x00]] hencode rfl (by decide) (by decide) link _ _ hselected rfl
    hcontinues
  have hoctets : run.1 = .ok [0xe2, 0x00] := congrArg Prod.fst hrun
  obtain ⟨turns, hspoken, hread, -, -⟩ :=
    @readAll_whole _ applet ⟨label, aid, []⟩ link link (runFrom_ensureSelected hselected)
  rcases (hread _).mp hoctets with ⟨-, -, -, hnil⟩ | ⟨first, pieces, rfl, -, -, hwhole⟩
  · exact absurd hnil (by decide)
  · exact ⟨hoctets, first, pieces, hspoken, (Except.ok.inj (hencode.symm.trans hwhole)).symm⟩

end AccessRules.Applet
