import AccessRules.Proofs.Applet.Storing
import AccessRules.Proofs.Card.Selection

/-!
# What a session remembers of the card

A session remembers which application it selected last, to save a SELECT.  It takes note of a SELECT
that is accepted only, but the card goes by every SELECT, so the two part ways when one is refused.

1. **The invariant** — `Remembers link` tells what both go by from the commands that were sent: the
   session from the SELECT that was accepted last, the card from the one that was sent last.  Every
   action keeps it (`remembers_step`), so it holds in every state of a session
   (`remembers_after`).

2. **Stale** — hence the session takes the applet for selected when it is not, exactly if the applet
   was accepted last and another SELECT was refused since (`Remembers.stale_iff`).

3. **Asking** — what is asked of the applet then is answered with `notSelected` throughout, and
   otherwise never (`asking_applet_heard`).
-/

namespace AccessRules.Applet

open Step

/-! ## Sessions -/

/-- What an application is asked to do. -/
inductive Errand
  | storeData (data : Bytes)
  | send (octets : Bytes)
  | deleteAll
  | readAll
  | config (version : Version)
  deriving DecidableEq, Repr

/-- What a session does: it selects an application, or asks one that was selected. -/
inductive Action
  | select (label : String)
  | ask (target : Selection) (errand : Errand)
  deriving DecidableEq, Repr

variable {σ : Type}

/-- An errand to a target, without what it brings back. -/
def Errand.step (applet : Applet σ) (target : Selection) :
    Errand → Step (Link σ) AppletError Unit
  | .storeData data => do
    let _ ← applet.storeData target data
    return ()
  | .send octets => applet.send target octets
  | .deleteAll => applet.deleteAll target
  | .readAll => do
    let _ ← applet.readAll target
    return ()
  | .config version => do
    let _ ← applet.config target version
    return ()

/-- An action, without what it brings back. -/
def Action.step (applet : Applet σ) : Action → Step (Link σ) AppletError Unit
  | .select label => do
    let _ ← applet.select label
    return ()
  | .ask target errand => errand.step applet target

/-- The state of a session after some actions, each of which starts where the one before it ended,
    whether that one failed or not. -/
def after (applet : Applet σ) (actions : List Action) (link : Link σ) : Link σ :=
  actions.foldl (fun link action => ((action.step applet).runFrom link).2) link

/-- An errand is made of making sure of its target and of commands that are not SELECT. -/
theorem leads_errand {applet : Applet σ} {target : Selection} {pre post : Link σ → Prop}
    (hensure : Leads pre post (applet.ensureSelected target))
    (hexchange : ∀ command, Memory.isSelect command = false →
      Leads post post (applet.exchange command))
    (hback : ∀ link, post link → pre link) (errand : Errand) :
    Leads pre pre (errand.step applet target) := by
  have hstore : ∀ data, Leads post post (applet.exchange (storeCommand data)) :=
    fun data => hexchange _ rfl
  have hget : ∀ tag data, Leads post post (applet.exchange (getCommand tag data)) :=
    fun tag data => hexchange _ rfl
  cases errand with
  | storeData data =>
    have hrun := leads_storeData hensure hstore hback data
    exact (hrun.weaken hback).seq fun _ => leads_pure ()
  | send octets => exact leads_send hensure hstore hback octets
  | deleteAll => exact (leads_storeObject hensure hstore hback deleteTag []).weaken hback
  | readAll =>
    have hrun := leads_readAll hensure hget hback
    exact (hrun.weaken hback).seq fun _ => leads_pure ()
  | config version =>
    have hrun := leads_config hensure hget hback version
    exact (hrun.weaken hback).seq fun _ => leads_pure ()

/-! ## SELECT -/

theorem isSelect_selectCommand (aid : Bytes) : Memory.isSelect (selectCommand aid) = true := rfl

theorem selectsApplet_selectCommand : Memory.selectsApplet (selectCommand aid) = true := by decide

/-- An identifier is known from the command that selects it. -/
theorem selectCommand_inj {aid other : Bytes} (h : selectCommand aid = selectCommand other) :
    aid = other := by
  simp only [selectCommand, List.cons_append, List.nil_append, List.cons.injEq, true_and] at h
  exact List.append_cancel_right h.2

variable {applet : Applet Memory}

/-- What selecting comes to: the session takes note of it only if it is accepted. -/
theorem runFrom_selectAid (hcard : applet.card = Memory.card) (label : String) (aid : Bytes)
    (link : Link Memory) :
    (applet.selectAid label aid).runFrom link =
      if Memory.selectsApplet (selectCommand aid) then
        (.ok ⟨label, aid, []⟩, ⟨{ link.card with selected := true }, some aid,
          link.sent.push (selectCommand aid)⟩)
      else
        (.error (.notOnCard label aid), ⟨{ link.card with selected := false }, link.selected,
          link.sent.push (selectCommand aid)⟩) := by
  rw [selectAid, runFrom_bind, runFrom_exchange hcard,
    Memory.answer_select (isSelect_selectCommand aid)]
  cases Memory.selectsApplet (selectCommand aid) <;> rfl

/-! ## The invariant -/

/-- The SELECT that was sent last. -/
def lastSelect? (sent : Array Bytes) : Option Bytes :=
  (sent.toList.filter Memory.isSelect).getLast?

/-- The SELECT that was accepted last. -/
def lastAccepted? (sent : Array Bytes) : Option Bytes :=
  (sent.toList.filter Memory.selectsApplet).getLast?

/-- `Remembers link` — the session has the application of the SELECT that was accepted last for
    selected, and the card goes by the SELECT that was sent last. -/
structure Remembers (link : Link Memory) : Prop where
  session : lastAccepted? link.sent = link.selected.map selectCommand
  card : ∀ command, lastSelect? link.sent = some command →
    link.card.selected = Memory.selectsApplet command

/-- The last command of a kind is the new one, if it is of the kind. -/
theorem getLast?_filter_push (p : Bytes → Bool) (sent : Array Bytes) (command : Bytes) :
    ((sent.push command).toList.filter p).getLast? =
      if p command then some command else (sent.toList.filter p).getLast? := by
  rw [Array.toList_push, List.filter_append]
  by_cases h : p command = true
  · rw [if_pos h, List.filter_cons_of_pos h]
    exact List.getLast?_concat
  · rw [if_neg h, List.filter_cons_of_neg h]
    exact congrArg List.getLast? (List.append_nil _)

/-- A SELECT that is accepted is the last one that is. -/
theorem lastAccepted?_of_lastSelect? {sent : Array Bytes} {command : Bytes}
    (h : lastSelect? sent = some command) (haccepted : Memory.selectsApplet command = true) :
    lastAccepted? sent = some command := by
  -- only commands that select can be accepted
  have hboth : ∀ command, (Memory.selectsApplet command && Memory.isSelect command) =
      Memory.selectsApplet command := by
    intro command
    rw [Memory.selectsApplet]
    cases Memory.isSelect command <;> simp
  obtain ⟨front, hfront⟩ := List.getLast?_eq_some_iff.mp h
  have hfilter : sent.toList.filter Memory.selectsApplet =
      front.filter Memory.selectsApplet ++ [command] := by
    calc sent.toList.filter Memory.selectsApplet
        = (sent.toList.filter Memory.isSelect).filter Memory.selectsApplet := by
          rw [List.filter_filter]
          exact (List.filter_congr fun command _ => hboth command).symm
      _ = (front ++ [command]).filter Memory.selectsApplet := by rw [hfront]
      _ = front.filter Memory.selectsApplet ++ [command] := by
          rw [List.filter_append, List.filter_cons_of_pos haccepted, List.filter_nil]
  rw [lastAccepted?, hfilter]
  exact List.getLast?_concat

/-- Where a SELECT was accepted, one was sent. -/
theorem exists_lastSelect? {sent : Array Bytes} {accepted : Bytes}
    (h : lastAccepted? sent = some accepted) : ∃ command, lastSelect? sent = some command := by
  have hmem := List.mem_filter.mp (List.mem_of_getLast? h)
  have hselect : accepted ∈ sent.toList.filter Memory.isSelect :=
    List.mem_filter.mpr ⟨hmem.1, (Bool.and_eq_true_iff.mp hmem.2).1⟩
  exact ⟨_, List.getLast?_eq_some_getLast (List.ne_nil_of_mem hselect)⟩

/-- Other commands than SELECT change nothing of it. -/
theorem remembers_exchange (hcard : applet.card = Memory.card) {command : Bytes}
    (h : Memory.isSelect command = false) :
    Leads Remembers Remembers (applet.exchange command) := by
  intro link hlink
  have hrefused : Memory.selectsApplet command = false := by rw [Memory.selectsApplet, h]; rfl
  have hafter : Remembers ⟨(Memory.answer command link.card).2, link.selected,
      link.sent.push command⟩ := by
    refine ⟨?_, fun other hother => ?_⟩
    · rw [lastAccepted?, getLast?_filter_push, hrefused]
      exact hlink.session
    · rw [lastSelect?, getLast?_filter_push, h] at hother
      exact (Memory.selected_answer h link.card).trans (hlink.card other hother)
  rw [runFrom_exchange hcard]
  cases (Memory.answer command link.card).1 <;> exact hafter

/-- Selecting keeps what is remembered: the card obeys the last command, the session the last that
was accepted. -/
theorem remembers_selectAid (hcard : applet.card = Memory.card) (label : String) (aid : Bytes) :
    Leads Remembers Remembers (applet.selectAid label aid) := by
  intro link hlink
  have hsent : lastSelect? (link.sent.push (selectCommand aid)) = some (selectCommand aid) := by
    rw [lastSelect?, getLast?_filter_push, if_pos (isSelect_selectCommand aid)]
  rw [runFrom_selectAid hcard]
  cases haccepted : Memory.selectsApplet (selectCommand aid) with
  | true =>
    refine ⟨?_, fun command hcommand => ?_⟩
    · show lastAccepted? (link.sent.push (selectCommand aid)) = _
      rw [lastAccepted?, getLast?_filter_push, if_pos haccepted]
      rfl
    · obtain rfl := Option.some.inj (hsent.symm.trans hcommand)
      exact haccepted.symm
  | false =>
    refine ⟨?_, fun command hcommand => ?_⟩
    · show lastAccepted? (link.sent.push (selectCommand aid)) = _
      rw [lastAccepted?, getLast?_filter_push, haccepted]
      exact hlink.session
    · obtain rfl := Option.some.inj (hsent.symm.trans hcommand)
      exact haccepted.symm

/-- Every action keeps the invariant, whether it succeeds or fails. -/
theorem remembers_step (hcard : applet.card = Memory.card) (action : Action) :
    Leads Remembers Remembers (action.step applet) := by
  cases action with
  | select label =>
    have hselect : Leads Remembers Remembers (applet.select label) :=
      (leads_lift _).seq fun aid => remembers_selectAid hcard label aid
    exact hselect.seq fun _ => leads_pure ()
  | ask target errand =>
    have hensure : Leads Remembers Remembers (applet.ensureSelected target) :=
      leads_ensureSelected (fun _ h _ => h) fun link h _ =>
        remembers_selectAid hcard target.label target.aid link h
    exact leads_errand hensure (fun command => remembers_exchange hcard) (fun _ h => h) errand

/-- A session that starts without a command keeps the invariant throughout. -/
theorem remembers_after (hcard : applet.card = Memory.card) (actions : List Action)
    {link : Link Memory} (h : Remembers link) : Remembers (applet.after actions link) := by
  induction actions generalizing link with
  | nil => exact h
  | cons action actions ih => exact ih ((remembers_step hcard action).after h)

/-- On a card that was sent nothing there is nothing to remember. -/
theorem remembers_fresh (memory : Memory) : Remembers { card := memory } := ⟨rfl, nofun⟩

/-! ## Stale -/

/-- The applet was accepted last, but another SELECT was refused since. -/
def stale (sent : Array Bytes) : Prop :=
  lastAccepted? sent = some (selectCommand aid) ∧ lastSelect? sent ≠ some (selectCommand aid)

/-- Exactly then the session takes the applet for selected when it is not. -/
theorem Remembers.stale_iff {link : Link Memory} (h : Remembers link) :
    stale link.sent ↔ link.selected = some aid ∧ link.card.selected = false := by
  have hsession : lastAccepted? link.sent = some (selectCommand aid) ↔
      link.selected = some aid := by
    rw [h.session, Option.map_eq_some_iff]
    constructor
    · rintro ⟨other, hother, heq⟩
      rw [hother, selectCommand_inj heq]
    · intro hselected
      exact ⟨aid, hselected, rfl⟩
  rw [stale, hsession]
  refine and_congr_right fun hselected => ?_
  obtain ⟨command, hcommand⟩ := exists_lastSelect? (hsession.mpr hselected)
  rw [hcommand, h.card command hcommand]
  constructor
  · intro hne
    -- if the last one had been accepted, it would be the one that the session remembers
    refine Bool.eq_false_iff.mpr fun haccepted => hne ?_
    rw [← lastAccepted?_of_lastSelect? hcommand haccepted]
    exact hsession.mpr hselected
  · rintro hrefused heq
    rw [Option.some.inj heq, selectsApplet_selectCommand] at hrefused
    cases hrefused

/-! ## Asking -/

/-- `Heard good start link` — from `start` on the session has sent some commands, and all that the
    card answered to them is `good`. -/
def Heard (good : Except Rejection Bytes → Prop) (start link : Link Memory) : Prop :=
  ∃ commands, link.sent.toList = start.sent.toList ++ commands ∧
    link.card = (Memory.converse commands start.card).2 ∧
    ∀ reply ∈ (Memory.converse commands start.card).1, good reply

variable {good : Except Rejection Bytes → Prop} {start link : Link Memory}

/-- Before anything is asked, every answer was as it should be. -/
theorem heard_refl : Heard good start start := ⟨[], (List.append_nil _).symm, rfl, nofun⟩

/-- One more command with a good answer. -/
theorem Heard.push (h : Heard good start link) {command : Bytes}
    (hgood : good (Memory.answer command link.card).1) (selected : Option Bytes) :
    Heard good start
      ⟨(Memory.answer command link.card).2, selected, link.sent.push command⟩ := by
  obtain ⟨commands, hsent, hlink, hreplies⟩ := h
  rw [hlink] at hgood ⊢
  refine ⟨commands ++ [command], ?_, ?_, ?_⟩
  · rw [Array.toList_push, hsent, List.append_assoc]
  · rw [Memory.converse_concat]
  · rw [Memory.converse_concat]
    intro reply hmem
    rcases List.mem_append.mp hmem with hmem | hmem
    · exact hreplies reply hmem
    · exact List.mem_singleton.mp hmem ▸ hgood

/-- `Alike selected start link` — since `start` the card has answered every command as it does while
    the applet is `selected`, or is not.  If it is not, the session takes it for selected, since it
    would select it otherwise. -/
structure Alike (selected : Bool) (start link : Link Memory) : Prop where
  heard : Heard (fun reply => reply = .ok Memory.notSelected ↔ selected = false) start link
  card : link.selected = some aid → link.card.selected = selected
  mistaken : selected = false → link.selected = some aid

/-- `Settled selected start link` — so it has, and the session takes the applet for selected now. -/
structure Settled (selected : Bool) (start link : Link Memory) : Prop where
  heard : Heard (fun reply => reply = .ok Memory.notSelected ↔ selected = false) start link
  session : link.selected = some aid
  card : link.card.selected = selected

variable {selected : Bool}

/-- A session that has settled answers like one with this selection. -/
theorem Settled.alike (h : Settled selected start link) : Alike selected start link :=
  ⟨h.heard, fun _ => h.card, fun _ => h.session⟩

/-- What other commands than SELECT are answered is decided by what is selected. -/
theorem settled_exchange (hcard : applet.card = Memory.card) {command : Bytes}
    (hcommand : Memory.isSelect command = false) :
    Leads (Settled selected start) (Settled selected start) (applet.exchange command) := by
  intro link hlink
  have hgood : (Memory.answer command link.card).1 = .ok Memory.notSelected ↔
      selected = false := by
    rw [Memory.answer_eq_notSelected_iff, hcommand, hlink.card]
    exact and_iff_right rfl
  have hafter : Settled selected start ⟨(Memory.answer command link.card).2, link.selected,
      link.sent.push command⟩ :=
    ⟨hlink.heard.push hgood _, hlink.session,
      (Memory.selected_answer hcommand _).trans hlink.card⟩
  rw [runFrom_exchange hcard]
  cases (Memory.answer command link.card).1 <;> exact hafter

/-- To make sure of the applet it is selected, which the card accepts, unless the session takes it
    for selected. -/
theorem settled_ensureSelected (hcard : applet.card = Memory.card) {target : Selection}
    (htarget : target.aid = aid) :
    Leads (Alike selected start) (Settled selected start) (applet.ensureSelected target) := by
  refine leads_ensureSelected (fun link hlink hsession => ?_) fun link hlink hsession => ?_
  · rw [htarget] at hsession
    exact ⟨hlink.heard, hsession, hlink.card hsession⟩
  · rw [htarget] at hsession ⊢
    -- a card that has the applet selected no longer is not asked to select it, as the session is
    -- mistaken
    obtain rfl : selected = true := by
      by_contra hne
      exact hsession (hlink.mistaken (Bool.eq_false_iff.mpr hne))
    -- selecting the applet itself is always accepted
    have hanswer : Memory.answer (selectCommand aid) link.card =
        (.ok Memory.done, { link.card with selected := true }) :=
      Memory.answer_select (isSelect_selectCommand aid) link.card
    have hgood : (Memory.answer (selectCommand aid) link.card).1 = .ok Memory.notSelected ↔
        true = false := by
      rw [hanswer]
      exact iff_of_false (fun heq => absurd (Except.ok.inj heq) (by decide)) Bool.true_eq_false.mp
    have hpush := hlink.heard.push hgood (some aid)
    rw [hanswer] at hpush
    rw [runFrom_selectAid hcard, if_pos selectsApplet_selectCommand]
    exact ⟨hpush, rfl, rfl⟩

/-- **What a session remembers goes stale exactly where another SELECT is refused.**  After any
    actions from the start of a session on, the session takes the applet for selected while the card
    does not if and only if the applet was accepted last and a SELECT behind that was refused.  What
    is then asked of the applet is answered throughout with `notSelected`, and otherwise never. -/
theorem asking_applet_heard (reader : String) (labels : List (String × Bytes)) (memory : Memory)
    (actions : List Action) :
    let applet := onCard Memory.card reader labels
    let link := applet.after actions { card := memory }
    (stale link.sent ↔ link.selected = some aid ∧ link.card.selected = false) ∧
    ∀ (target : Selection) (errand : Errand), target.aid = aid →
      let reached := ((errand.step applet target).runFrom link).2
      ∃ commands, reached.sent.toList = link.sent.toList ++ commands ∧
        reached.card = (Memory.converse commands link.card).2 ∧
        ∀ reply ∈ (Memory.converse commands link.card).1,
          (reply = .ok Memory.notSelected ↔ stale link.sent) := by
  intro applet link
  have hcard : applet.card = Memory.card := rfl
  have hstale := (remembers_after hcard actions (remembers_fresh memory)).stale_iff
  refine ⟨hstale, fun target errand htarget => ?_⟩
  -- the card answers like one with this selection from here on
  obtain ⟨selected, hselected, hstart⟩ : ∃ selected, (selected = false ↔ stale link.sent) ∧
      Alike selected link link := by
    by_cases h : stale link.sent
    · -- a stale session refuses everything, and believes that it is selected
      have hboth := hstale.mp h
      exact ⟨false, iff_of_true rfl h, heard_refl, fun _ => hboth.2, fun _ => hboth.1⟩
    · refine ⟨true, iff_of_false Bool.true_eq_false.mp h, heard_refl, fun hsession => ?_, nofun⟩
      by_contra hne
      exact h (hstale.mpr ⟨hsession, Bool.eq_false_iff.mpr hne⟩)
  have hleads : Leads (Alike selected link) (Alike selected link) (errand.step applet target) :=
    leads_errand (settled_ensureSelected hcard htarget) (fun command => settled_exchange hcard)
      (fun _ h => h.alike) errand
  obtain ⟨commands, hsent, hreached, hreplies⟩ := (hleads.after hstart).heard
  exact ⟨commands, hsent, hreached, fun reply hmem => (hreplies reply hmem).trans hselected⟩

/-- If the applet is selected again behind the SELECT that is refused, it is asked as it should. -/
theorem asking_applet_heard_again :
    let applet := onCard Memory.card "" []
    let link := applet.after
      [.select "ADF.ARA-M", .select "a0000000871002", .select "ADF.ARA-M"] { card := {} }
    let reached := ((Errand.readAll.step applet ⟨label, aid, []⟩).runFrom link).2
    link.sent = #[selectCommand aid, selectCommand [0xa0, 0x00, 0x00, 0x00, 0x87, 0x10, 0x02],
      selectCommand aid] ∧
    reached.sent = link.sent.push (getCommand allRulesTag []) ∧
      ∀ reply ∈ (Memory.converse [getCommand allRulesTag []] link.card).1,
        reply ≠ .ok Memory.notSelected := by
  intro applet link reached
  have hsent : link.sent = #[selectCommand aid,
      selectCommand [0xa0, 0x00, 0x00, 0x00, 0x87, 0x10, 0x02], selectCommand aid] := by rfl
  have hfresh : ¬ stale link.sent := by
    rw [hsent]
    rintro ⟨-, hlast⟩
    exact hlast rfl
  obtain ⟨-, hasking⟩ := asking_applet_heard "" [] {}
    [.select "ADF.ARA-M", .select "a0000000871002", .select "ADF.ARA-M"]
  obtain ⟨commands, hcommands, -, hreplies⟩ := hasking ⟨label, aid, []⟩ .readAll rfl
  have hreached : reached.sent = link.sent.push (getCommand allRulesTag []) := by rfl
  have hall := congrArg Array.toList hreached
  rw [Array.toList_push] at hall
  obtain rfl := List.append_cancel_left (hcommands.symm.trans hall)
  exact ⟨hsent, hreached, fun reply hmem heq => hfresh ((hreplies reply hmem).mp heq)⟩

/-- The applet and then an application that is not on the card: the session still takes the applet
    for selected, and what it asks of it is answered with `notSelected`. -/
theorem asking_applet_refused :
    let applet := onCard Memory.card "" []
    let link := applet.after [.select "ADF.ARA-M", .select "a0000000871002"] { card := {} }
    link.selected = some aid ∧ link.card.selected = false ∧
      ((applet.readAll ⟨label, aid, []⟩).runFrom link).1 = .error (.refused .getAll 0x69 0x85) ∧
      ((applet.readAll ⟨label, aid, []⟩).runFrom link).2.sent =
        link.sent.push (getCommand allRulesTag []) := by
  intro applet link
  have hlink : link = ⟨{}, some aid, #[selectCommand aid,
    selectCommand [0xa0, 0x00, 0x00, 0x00, 0x87, 0x10, 0x02]]⟩ := by rfl
  rw [hlink]
  exact ⟨rfl, rfl, rfl, rfl⟩

end AccessRules.Applet
