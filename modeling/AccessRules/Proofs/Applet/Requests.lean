import AccessRules.Applet.Basic
import AccessRules.Proofs.Step

/-!
# What requests to the applet are made of

A request makes sure that its target is selected, and then exchanges commands of two kinds with the
card, those that hand data over and those that ask for data.  So what a request leads to is known
from what these parts lead to, whatever the card is:

1. **Reading** — `leads_readAll`, by induction on the octets that are missing (`leads_fetch`).

2. **Storing** — `leads_send`, by induction on the rules; the target is made sure of again before
   every rule (`leads_storeData`).
-/

namespace AccessRules.Applet

open Step

variable {σ : Type} {applet : Applet σ} {target : Selection} {pre post : Link σ → Prop}

/-- Checking a response leads nowhere. -/
theorem leads_check (request : Request) (accepted : Bool) (response : Response) :
    Leads pre pre (check request accepted response) := leads_require _ _

/-- Making sure of a target either does nothing or selects it. -/
theorem leads_ensureSelected
    (hthere : ∀ link, pre link → link.selected = some target.aid → post link)
    (hselect : ∀ link, pre link → link.selected ≠ some target.aid →
      Ends pre post ((applet.selectAid target.label target.aid).runFrom link)) :
    Leads pre post (applet.ensureSelected target) := by
  intro link hpre
  show Ends pre post (Step.runFrom (if link.selected = some target.aid then _ else _) link)
  by_cases hselected : link.selected = some target.aid
  · rw [if_pos hselected]
    exact hthere link hpre hselected
  · rw [if_neg hselected, Step.runFrom_bind]
    have hstep := hselect link hpre hselected
    cases hrun : (applet.selectAid target.label target.aid).runFrom link with
    | mk outcome after =>
      rw [hrun] at hstep
      cases outcome <;> exact hstep

/-! ## Reading -/

/-- Fetching the rest leads nowhere if no single request does. -/
theorem leads_fetch (hget : ∀ tag data, Leads post post (applet.exchange (getCommand tag data)))
    (total missing : Nat) : Leads post post (applet.fetch total missing) := by
  -- every piece that is taken has an octet at least, so fewer are missing behind it
  induction missing using Nat.strongRecOn with
  | ind missing ih =>
    rw [fetch]
    split
    · exact leads_pure []
    · refine (hget _ _).seq fun next => ?_
      refine (leads_check _ _ _).seq fun _ => ?_
      split
      · exact leads_throw _
      · split
        · exact (ih _ (by omega)).seq fun rest => leads_pure _
        · exact leads_throw _

/-- Reading everything leads where selecting the applet does. -/
theorem leads_readAll (hensure : Leads pre post (applet.ensureSelected target))
    (hget : ∀ tag data, Leads post post (applet.exchange (getCommand tag data)))
    (hback : ∀ link, post link → pre link) : Leads pre post (applet.readAll target) := by
  refine hensure.bind (fun _ => ?_) hback
  refine (hget _ _).seq fun first => ?_
  split
  · exact leads_pure []
  · refine (leads_check _ _ _).seq fun _ => ?_
    split
    · exact leads_pure []
    · refine (leads_lift _).seq fun header => ?_
      refine (leads_require _ _).seq fun _ => ?_
      refine (leads_require _ _).seq fun _ => ?_
      exact (leads_fetch hget _ _).seq fun rest => leads_pure _

/-- Reading the configuration. -/
theorem leads_config (hensure : Leads pre post (applet.ensureSelected target))
    (hget : ∀ tag data, Leads post post (applet.exchange (getCommand tag data)))
    (hback : ∀ link, post link → pre link) (version : Version) :
    Leads pre post (applet.config target version) := by
  refine hensure.bind (fun _ => ?_) hback
  refine (leads_lift _).seq fun inner => ?_
  refine (leads_lift _).seq fun outer => ?_
  refine (hget _ _).seq fun response => ?_
  refine (leads_check _ _ _).seq fun _ => ?_
  refine (leads_lift _).seq fun value => ?_
  split
  · exact leads_pure _
  · exact leads_throw _

/-! ## Storing -/

/-- Storing data leads where selecting the applet does. -/
theorem leads_storeData (hensure : Leads pre post (applet.ensureSelected target))
    (hstore : ∀ data, Leads post post (applet.exchange (storeCommand data)))
    (hback : ∀ link, post link → pre link) (data : Bytes) :
    Leads pre post (applet.storeData target data) := by
  refine hensure.bind (fun _ => ?_) hback
  refine (leads_require _ _).seq fun _ => ?_
  refine (hstore data).seq fun response => ?_
  exact (leads_check _ _ _).seq fun _ => leads_pure _

/-- Storing a data object does too: it is stored as data. -/
theorem leads_storeObject (hensure : Leads pre post (applet.ensureSelected target))
    (hstore : ∀ data, Leads post post (applet.exchange (storeCommand data)))
    (hback : ∀ link, post link → pre link) (tag : Nat) (value : Bytes) :
    Leads pre post (applet.storeObject target tag value) := by
  refine (leads_lift _).seq fun object => ?_
  exact (leads_storeData hensure hstore hback object).bind (fun _ => leads_pure _) hback

/-- If there is no rule, nothing is reached. -/
theorem leads_send (hensure : Leads pre post (applet.ensureSelected target))
    (hstore : ∀ data, Leads post post (applet.exchange (storeCommand data)))
    (hback : ∀ link, post link → pre link) (octets : Bytes) :
    Leads pre pre (applet.send target octets) := by
  have heach : ∀ rules, Leads pre pre (applet.storeEach target rules) := by
    intro rules
    induction rules with
    | nil => exact leads_pure ()
    | cons rule rules ih =>
      have hfirst := leads_storeObject hensure hstore hback storeTag rule
      exact (hfirst.weaken hback).seq fun _ => ih
  exact (leads_lift _).seq fun rules => heach rules

end AccessRules.Applet
