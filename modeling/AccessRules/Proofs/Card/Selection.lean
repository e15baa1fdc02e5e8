import AccessRules.Proofs.Card.Memory

/-!
# What the card in memory selects

1. **Selecting** — every SELECT decides anew whether the applet is selected, also one that is
   refused, and no other command does (`answer_select`, `selected_answer`).

2. **Asking** — while the applet is not selected the card answers everything but SELECT with
   `notSelected`, and otherwise it never gives that answer (`answer_eq_notSelected_iff`).

3. **Conversations** — `converse commands memory` is what the card answers to commands one after the
   other, and what it is then.
-/

namespace AccessRules.Memory

/-- Whether a command is SELECT. -/
def isSelect (command : Bytes) : Bool := command.take 2 = [0x00, 0xa4]

/-- Whether a command is SELECT and names the applet. -/
def selectsApplet (command : Bytes) : Bool := isSelect command && commandData command = Applet.aid

/-! ## Selecting -/

/-- A SELECT is accepted exactly if it names the applet, which is selected then and only then. -/
theorem answer_select {command : Bytes} (h : isSelect command = true) (memory : Memory) :
    answer command memory =
      if selectsApplet command then (.ok done, { memory with selected := true })
      else (.ok applicationNotFound, { memory with selected := false }) := by
  have hfirst : command.take 2 = [0x00, 0xa4] := of_decide_eq_true h
  rw [answer, if_pos hfirst]
  simp only [selectsApplet, h, Bool.true_and, decide_eq_true_eq]

/-- Only SELECT changes what is selected. -/
theorem selected_answer {command : Bytes} (h : isSelect command = false) (memory : Memory) :
    (answer command memory).2.selected = memory.selected := by
  have hother : command.take 2 ≠ [0x00, 0xa4] := of_decide_eq_false h
  rw [answer, if_neg hother]
  split
  · rfl
  · split
    · -- storing changes rules, and nothing else
      cases hstore : storeData (commandData command) memory with
      | error flaw => rfl
      | ok stored =>
        obtain ⟨status, after⟩ := stored
        rcases storeData_ok_cases hstore with ⟨rules, -, rfl⟩ | ⟨-, rfl⟩ <;> rfl
    · split
      · split
        · rfl
        · split <;> rfl
      · split
        · split <;> rfl
        · rfl

/-! ## Asking -/

/-- The pieces of an answer end in the status word of success. -/
theorem append_done_ne (piece : Bytes) : piece ++ done ≠ notSelected := by
  intro heq
  have hlast := congrArg List.getLast? heq
  rw [List.getLast?_append_of_ne_nil _ (by decide)] at hlast
  revert hlast
  decide

/-- A selected applet never answers that it is not selected. -/
theorem answer_ne_notSelected {command : Bytes} (h : isSelect command = false) {memory : Memory}
    (hselected : memory.selected = true) : (answer command memory).1 ≠ .ok notSelected := by
  have hother : command.take 2 ≠ [0x00, 0xa4] := of_decide_eq_false h
  have hstatus : ∀ status : Bytes, status ≠ notSelected →
      (Except.ok status : Except Rejection Bytes) ≠ .ok notSelected :=
    fun status hne heq => hne (Except.ok.inj heq)
  rw [answer, if_neg hother, hselected]
  show (if (!true) = true then _ else _ : Except Rejection Bytes × Memory).1 ≠ _
  rw [if_neg (by decide)]
  -- the branches in order: STORE DATA, the first piece, a further one, an unknown command
  split
  · cases hstore : storeData (commandData command) memory with
    | error flaw =>
      intro heq
      cases heq
    | ok stored =>
      obtain ⟨status, after⟩ := stored
      rcases storeData_ok_cases hstore with ⟨rules, rfl, -⟩ | ⟨rfl, -⟩
      · exact hstatus done (by decide)
      · exact hstatus wrongData (by decide)
  · split
    · split
      · exact hstatus nothingFound (by decide)
      · split
        · intro heq
          cases heq
        · -- a piece of the answer ends in another status word
          exact hstatus _ (append_done_ne _)
    · split
      · split
        · exact hstatus nothingFound (by decide)
        · exact hstatus _ (append_done_ne _)
      · exact hstatus unknownCommand (by decide)

/-- The card says that the applet is not selected exactly if it is not, to all but SELECT. -/
theorem answer_eq_notSelected_iff {command : Bytes} {memory : Memory} :
    (answer command memory).1 = .ok notSelected ↔
      isSelect command = false ∧ memory.selected = false := by
  cases hselect : isSelect command with
  | true =>
    rw [answer_select hselect]
    split <;> simp [done, applicationNotFound, notSelected]
  | false =>
    cases hselected : memory.selected with
    | true => simp [answer_ne_notSelected hselect hselected]
    | false =>
      have hother : command.take 2 ≠ [0x00, 0xa4] := of_decide_eq_false hselect
      rw [answer, if_neg hother, hselected]
      simp

/-! ## Conversations -/

/-- What the card answers to commands one after the other, and what it is then. -/
def converse : List Bytes → Memory → List (Except Rejection Bytes) × Memory
  | [], memory => ([], memory)
  | command :: commands, memory =>
    let rest := converse commands (answer command memory).2
    ((answer command memory).1 :: rest.1, rest.2)

/-- One more command is answered by what the card is then. -/
theorem converse_concat (commands : List Bytes) (command : Bytes) (memory : Memory) :
    converse (commands ++ [command]) memory =
      ((converse commands memory).1 ++ [(answer command (converse commands memory).2).1],
        (answer command (converse commands memory).2).2) := by
  induction commands generalizing memory with
  | nil => rfl
  | cons first commands ih =>
    rw [List.cons_append, converse, ih]
    rfl

end AccessRules.Memory
