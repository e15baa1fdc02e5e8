import AccessRules.Applet.Basic
import AccessRules.Card.Memory
import AccessRules.Proofs.Rule.Arrangement
import AccessRules.Proofs.Store.Keys
import AccessRules.Proofs.Store.Order
import Mathlib.Data.List.Forall2

/-!
# The card in memory keeps a list of rules

1. **Commands** — only STORE DATA changes the rules on the card (`kept_answer`), and it does so only
   if the answer says that it was carried out (`answer_storeCommand`, `storeData_ok_cases`).  The
   rules are sent piece by piece (`answer_all`, `answer_next`).

2. **References** — the card tells rules apart by the octets of their references.  For encodings of
   valid rules these are the same exactly if the keys are (`encodeAll_reference_eq_iff`).

3. **Storing** — so if the card holds the encodings of some rules, storing one more takes out the
   same one as in a store, and puts the new one at the end (`storeData_of_room`).

4. **A limit** — a card that is handed rules with new keys keeps the first ones (`within`), so that
   one step is the same for a card that is full and for one that is not (`storeData_of_new`).
-/

namespace AccessRules.Memory

/-- `memory.kept` — the rules on the card, and how many it may hold. -/
def kept (memory : Memory) : List Bytes × Option Nat := (memory.rules, memory.storeLimit)

/-! ## Commands -/

/-- Other commands than STORE DATA change no rules. -/
theorem kept_answer {command : Bytes} (h : command.take 2 ≠ [0x80, 0xe2]) (memory : Memory) :
    (answer command memory).2.kept = memory.kept := by
  simp only [answer]
  split
  · split <;> rfl
  · split
    · rfl
    · split
      · split
        · rfl
        · split <;> rfl
      · split
        · split <;> rfl
        · rfl

/-- The card reads the data that a command was made for, as its length fits into an octet. -/
theorem commandData_storeCommand {data : Bytes} (h : data.length ≤ Applet.maxCommandData) :
    commandData (Applet.storeCommand data) = data := by
  have hsize : (Applet.lengthOctet data).toNat = data.length := by
    rw [Applet.lengthOctet, UInt8.toNat_ofNat']
    simp only [Applet.maxCommandData] at h
    omega
  simp [commandData, Applet.storeCommand, hsize]

/-- What the card answers to STORE DATA. -/
theorem answer_storeCommand {data : Bytes} (h : data.length ≤ Applet.maxCommandData)
    (memory : Memory) :
    answer (Applet.storeCommand data) memory =
      if memory.selected then
        match storeData data memory with
        | .ok (status, after) => (.ok status, after)
        | .error flaw => (.error (.unreadable flaw), memory)
      else (.ok notSelected, memory) := by
  have hselect : (Applet.storeCommand data).take 2 ≠ [0x00, 0xa4] := by
    simp [Applet.storeCommand]
  have hstore : (Applet.storeCommand data).take 2 = [0x80, 0xe2] := rfl
  simp only [answer, commandData_storeCommand h]
  rw [if_neg hselect, if_pos hstore]
  cases memory.selected <;> rfl

section Answer

variable {memory : Memory} (hselected : memory.selected = true)
include hselected

/-- A selected applet does not refuse for want of being selected. -/
theorem not_selected_ne : ¬ (!memory.selected) = true := by
  rw [hselected]
  exact Bool.false_ne_true

/-- The next piece of a pending answer. -/
theorem answer_next (hpending : memory.pending ≠ []) :
    answer (Applet.getCommand Applet.nextTag []) memory =
      (.ok (memory.pending.take (pieceSize memory.chunkSize memory.pending.length) ++ done),
        { memory with
          pending := memory.pending.drop (pieceSize memory.chunkSize memory.pending.length) }) := by
  rw [answer, if_neg (by decide), if_neg (not_selected_ne hselected), if_neg (by decide),
    if_neg (by decide), if_pos (by decide), if_neg hpending]
  rfl

/-- The first piece of the answer that holds all rules. -/
theorem answer_all (hrules : memory.rules ≠ []) {whole : Bytes}
    (hwhole : Tlv.encode Applet.allRulesTag memory.rules.flatten = .ok whole) :
    answer (Applet.getCommand Applet.allRulesTag []) memory =
      (.ok (whole.take (pieceSize memory.chunkSize whole.length) ++ done),
        { memory with pending := whole.drop (pieceSize memory.chunkSize whole.length) }) := by
  rw [answer, if_neg (by decide), if_neg (not_selected_ne hselected), if_neg (by decide),
    if_pos (by decide), if_neg hrules, hwhole]
  rfl

/-- Where there is no rule, there is no answer that holds all of them. -/
theorem answer_all_of_nil (hrules : memory.rules = []) :
    answer (Applet.getCommand Applet.allRulesTag []) memory = (.ok nothingFound, memory) := by
  rw [answer, if_neg (by decide), if_neg (not_selected_ne hselected), if_neg (by decide),
    if_pos (by decide), if_pos hrules]

end Answer

/-- STORE DATA that is carried out changes the rules and nothing else, and changes nothing if it is
    not. -/
theorem storeData_ok_cases {data status : Bytes} {memory after : Memory}
    (h : storeData data memory = .ok (status, after)) :
    (∃ rules, status = done ∧ after = { memory with rules := rules }) ∨
      (status = wrongData ∧ after = memory) := by
  obtain ⟨elements, -, h⟩ := bind_eq_ok_iff.mp h
  have hwrong : (Except.ok (wrongData, memory) : Except (Located Tlv.Flaw) _)
      = .ok (status, after) → status = wrongData ∧ after = memory := by
    intro heq
    obtain ⟨hstatus, hafter⟩ := Prod.mk.inj (Except.ok.inj heq)
    exact ⟨hstatus.symm, hafter.symm⟩
  have hdone : ∀ rules, (Except.ok (done, { memory with rules := rules }) :
      Except (Located Tlv.Flaw) _) = .ok (status, after) →
        ∃ rules, status = done ∧ after = { memory with rules := rules } := by
    intro rules heq
    obtain ⟨hstatus, hafter⟩ := Prod.mk.inj (Except.ok.inj heq)
    exact ⟨rules, hstatus.symm, hafter.symm⟩
  -- the branches in order: no object, deletion, another command, a full card, storage
  split at h
  · exact .inr (hwrong h)
  · split at h
    · exact .inl (hdone _ h)
    · split at h
      · exact .inr (hwrong h)
      · split at h
        · exact .inl (hdone memory.rules h)
        · obtain ⟨reference, -, h⟩ := bind_eq_ok_iff.mp h
          obtain ⟨others, -, h⟩ := bind_eq_ok_iff.mp h
          exact .inl (hdone _ h)

/-! ## References -/

/-- The reference in the encoding of a rule is the encoding of its reference. -/
theorem referenceOf_of_encode {rule : Rule} {octets : Bytes} (h : rule.encode = .ok octets) :
    ∃ value, encodeAll rule.reference.objects = .ok value ∧
      referenceOf octets = .ok (some value) := by
  obtain ⟨reference, access, inside, hreference, -, hinside, houter⟩ := Rule.encode_eq_ok_iff.mp h
  obtain ⟨elements, hdecode, hobjects⟩ := decodeFrom_of_encodeAll hinside 0
  refine ⟨reference, hreference, bind_eq_ok_iff.mpr ⟨_, Tlv.decode_of_encode houter,
    bind_eq_ok_iff.mpr ⟨elements, hdecode, ?_⟩⟩⟩
  cases elements with
  | nil => cases hobjects
  | cons element elements =>
    have hfirst : element.object = (Objects.reference, reference) := (List.cons.inj hobjects).1
    exact congrArg (fun object => Except.ok (some object.2)) hfirst

/-- Valid rules have one key exactly if their references have one encoding. -/
theorem encodeAll_reference_eq_iff {rule other : Rule} (hvalid : rule.Valid)
    (hvalid' : other.Valid) {value value' : Bytes}
    (h : encodeAll rule.reference.objects = .ok value)
    (h' : encodeAll other.reference.objects = .ok value') :
    value = value' ↔ rule.key = other.key := by
  rw [Rule.key_eq_iff]
  constructor
  · rintro rfl
    exact Reference.eq_of_encodeAll hvalid.reference hvalid'.reference h h'
  · intro heq
    rw [heq, h'] at h
    exact (Except.ok.inj h).symm

/-! ## Storing -/

/-- `Written rules encodings` — the octets are the encodings of the rules in order. -/
def Written (rules : List Rule) (encodings : List Bytes) : Prop :=
  List.Forall₂ (fun rule octets => rule.encode = .ok octets) rules encodings

/-- Encoding all rules gives the encodings that are written for them. -/
theorem mapM_encode_eq_ok_iff {rules : List Rule} {encodings : List Bytes} :
    rules.mapM Rule.encode = .ok encodings ↔ Written rules encodings := by
  induction rules generalizing encodings with
  | nil =>
    rw [Written, List.forall₂_nil_left_iff, List.mapM_nil]
    exact ⟨fun h => (Except.ok.inj h).symm, fun h => congrArg Except.ok h.symm⟩
  | cons rule rules ih =>
    rw [Written, List.forall₂_cons_left_iff]
    simp only [List.mapM_cons, bind_eq_ok_iff, ih]
    constructor
    · rintro ⟨first, hfirst, rest, hrest, heq⟩
      exact ⟨first, rest, hfirst, hrest, (Except.ok.inj heq).symm⟩
    · rintro ⟨first, rest, hfirst, hrest, rfl⟩
      exact ⟨first, hfirst, rest, hrest, rfl⟩

/-- The card takes the same rules out as a store. -/
theorem others_of_written {rules : List Rule} {encodings : List Bytes}
    (h : Written rules encodings) (hvalid : ∀ rule ∈ rules, rule.Valid) {rule : Rule}
    (hrule : rule.Valid) {value : Bytes} (hvalue : encodeAll rule.reference.objects = .ok value) :
    ∃ left, others (some value) encodings = .ok left ∧
      Written (Store.others rules rule.key) left := by
  -- both go through the list rule by rule, and decide the same of each
  induction h with
  | nil => exact ⟨[], rfl, .nil⟩
  | @cons other octets rules encodings hencode _ ih =>
    obtain ⟨hother, hrest⟩ := List.forall_mem_cons.mp hvalid
    obtain ⟨left, hleft, hwritten⟩ := ih hrest
    obtain ⟨value', hvalue', hreference⟩ := referenceOf_of_encode hencode
    -- octets with the same reference object are rules with the same key
    have hsame := encodeAll_reference_eq_iff hother hrule hvalue' hvalue
    have hothers : others (some value) (octets :: encodings) =
        .ok (if value' = value then left else octets :: left) := by
      refine bind_eq_ok_iff.mpr ⟨_, hreference, bind_eq_ok_iff.mpr ⟨left, hleft, ?_⟩⟩
      simp
    rw [hothers]
    by_cases hkey : other.key = rule.key
    · rw [if_pos (hsame.mpr hkey), Store.others_cons_of_eq hkey]
      exact ⟨left, rfl, hwritten⟩
    · rw [if_neg fun heq => hkey (hsame.mp heq), Store.others_cons_of_ne hkey]
      exact ⟨octets :: left, rfl, .cons hencode hwritten⟩

/-- Deleting takes all rules out. -/
theorem storeData_delete {data : Bytes} (hdata : Tlv.encode Applet.deleteTag [] = .ok data)
    (memory : Memory) : storeData data memory = .ok (done, { memory with rules := [] }) :=
  bind_eq_ok_iff.mpr ⟨_, Tlv.decode_of_encode hdata, rfl⟩

/-- A card with room that holds the encodings of some rules stores one more as a store does. -/
theorem storeData_of_room {memory : Memory} (hroom : memory.isFull = false) {rules : List Rule}
    (hwritten : Written rules memory.rules) (hvalid : ∀ rule ∈ rules, rule.Valid) {rule : Rule}
    (hrule : rule.Valid) {octets data : Bytes} (hencode : rule.encode = .ok octets)
    (hdata : Tlv.encode Applet.storeTag octets = .ok data) :
    ∃ encodings, storeData data memory = .ok (done, { memory with rules := encodings }) ∧
      Written (Store.others rules rule.key ++ [rule]) encodings := by
  obtain ⟨value, hvalue, hreference⟩ := referenceOf_of_encode hencode
  obtain ⟨left, hleft, hothers⟩ := others_of_written hwritten hvalid hrule hvalue
  refine ⟨left ++ [octets], bind_eq_ok_iff.mpr ⟨_, Tlv.decode_of_encode hdata, ?_⟩, ?_⟩
  · show (if Applet.storeTag = Applet.deleteTag then _ else _) = _
    rw [if_neg (by decide), if_neg (fun h => h rfl), if_neg (Bool.eq_false_iff.mp hroom)]
    exact bind_eq_ok_iff.mpr ⟨_, hreference, bind_eq_ok_iff.mpr ⟨left, hleft, rfl⟩⟩
  · exact List.rel_append hothers (.cons hencode .nil)

/-- A card without a limit that holds the encodings of some rules stores one more as a store
    does. -/
theorem storeData_of_encode {memory : Memory} (hlimit : memory.storeLimit = none)
    {rules : List Rule} (hwritten : Written rules memory.rules)
    (hvalid : ∀ rule ∈ rules, rule.Valid) {rule : Rule} (hrule : rule.Valid) {octets data : Bytes}
    (hencode : rule.encode = .ok octets) (hdata : Tlv.encode Applet.storeTag octets = .ok data) :
    ∃ encodings, storeData data memory = .ok (done, { memory with rules := encodings }) ∧
      Written (Store.others rules rule.key ++ [rule]) encodings := by
  have hroom : memory.isFull = false := by rw [isFull, hlimit]
  exact storeData_of_room hroom hwritten hvalid hrule hencode hdata

/-- A full card loses the rule, and does not say so. -/
theorem storeData_of_full {memory : Memory} (hfull : memory.isFull = true) {octets data : Bytes}
    (hdata : Tlv.encode Applet.storeTag octets = .ok data) :
    storeData data memory = .ok (done, memory) := by
  refine bind_eq_ok_iff.mpr ⟨_, Tlv.decode_of_encode hdata, ?_⟩
  show (if Applet.storeTag = Applet.deleteTag then _ else _) = _
  rw [if_neg (by decide), if_neg (fun h => h rfl), if_pos hfull]

/-! ## A limit -/

/-- What a card with a limit keeps of rules that it is handed one by one: the first ones. -/
def within (limit : Option Nat) (rules : List Bytes) : List Bytes :=
  match limit with
  | none => rules
  | some limit => rules.take limit

theorem within_nil (limit : Option Nat) : within limit [] = [] := by
  cases limit with
  | none => rfl
  | some limit => exact List.take_nil

/-- A full card has a part of what was sent. -/
theorem within_sublist (limit : Option Nat) (rules : List Bytes) :
    (within limit rules).Sublist rules := by
  cases limit with
  | none => exact .refl _
  | some limit => exact List.take_sublist _ _

/-- A card that is full keeps no further rule. -/
theorem within_append_of_full {memory : Memory} {encodings : List Bytes}
    (hmemory : memory.rules = within memory.storeLimit encodings) (hfull : memory.isFull = true)
    (octets : Bytes) : within memory.storeLimit (encodings ++ [octets]) = memory.rules := by
  cases hlimit : memory.storeLimit with
  | none =>
    rw [isFull, hlimit] at hfull
    cases hfull
  | some limit =>
    rw [isFull, hlimit] at hfull
    rw [hlimit] at hmemory
    have hle : limit ≤ memory.rules.length := of_decide_eq_true hfull
    have hlength : memory.rules.length = min limit encodings.length := by
      rw [hmemory]
      exact List.length_take
    rw [hmemory]
    exact List.take_append_of_le_length (by omega)

/-- A card with room has kept all rules so far, and keeps the next one. -/
theorem within_append_of_room {memory : Memory} {encodings : List Bytes}
    (hmemory : memory.rules = within memory.storeLimit encodings) (hroom : memory.isFull = false)
    (octets : Bytes) :
    memory.rules = encodings ∧
      within memory.storeLimit (encodings ++ [octets]) = encodings ++ [octets] := by
  cases hlimit : memory.storeLimit with
  | none =>
    rw [hlimit] at hmemory
    exact ⟨hmemory, rfl⟩
  | some limit =>
    rw [isFull, hlimit] at hroom
    rw [hlimit] at hmemory
    have hlt : ¬ limit ≤ memory.rules.length := of_decide_eq_false hroom
    -- with fewer rules than the limit, nothing was left out so far
    have hlength : memory.rules.length = min limit encodings.length := by
      rw [hmemory]
      exact List.length_take
    refine ⟨hmemory.trans (List.take_of_length_le (by omega)), List.take_of_length_le ?_⟩
    rw [List.length_append, List.length_singleton]
    omega

/-- Rules have one list of encodings. -/
theorem Written.eq {rules : List Rule} {encodings others : List Bytes}
    (h : Written rules encodings) (h' : Written rules others) : encodings = others := by
  have hboth := mapM_encode_eq_ok_iff.mpr h
  rw [mapM_encode_eq_ok_iff.mpr h'] at hboth
  exact (Except.ok.inj hboth).symm

/-- A rule with a new key is kept behind the others, as far as the limit allows. -/
theorem storeData_of_new {memory : Memory} {rules : List Rule} {encodings : List Bytes}
    (hwritten : Written rules encodings)
    (hmemory : memory.rules = within memory.storeLimit encodings)
    (hvalid : ∀ rule ∈ rules, rule.Valid) {rule : Rule} (hrule : rule.Valid)
    (hnew : rule.key ∉ rules.map Rule.key) {octets data : Bytes}
    (hencode : rule.encode = .ok octets) (hdata : Tlv.encode Applet.storeTag octets = .ok data) :
    storeData data memory =
      .ok (done, { memory with rules := within memory.storeLimit (encodings ++ [octets]) }) := by
  cases hfull : memory.isFull with
  | true => rw [within_append_of_full hmemory hfull, storeData_of_full hfull hdata]
  | false =>
    obtain ⟨hall, hkept⟩ := within_append_of_room hmemory hfull octets
    have hcard : Written rules memory.rules := by
      rw [hall]
      exact hwritten
    -- with room the rule goes behind the others, none of which it replaces
    obtain ⟨found, hstored, hfound⟩ := storeData_of_room hfull hcard hvalid hrule hencode hdata
    rw [Store.others_eq_self hnew] at hfound
    have hboth : Written (rules ++ [rule]) (encodings ++ [octets]) :=
      List.rel_append hwritten (.cons hencode .nil)
    rw [hstored, hkept, hfound.eq hboth]

end AccessRules.Memory
