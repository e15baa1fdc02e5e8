import AccessRules.Card.Basic

/-!
# Recorded answers

A recording answers each command with the next of its answers, whatever the command says.
-/

namespace AccessRules

/-- The answers that are left. -/
abbrev Recording := List (Except Rejection Bytes)

namespace Recording

/-- What a recording answers when nothing is left. -/
def exhausted : Rejection := .plain "no response left"

/-- The next answer. -/
def answer : Recording → Except Rejection Bytes × Recording
  | [] => (.error exhausted, [])
  | next :: rest => (next, rest)

/-- The card that plays recordings. -/
def card (atr : Bytes) : Card Recording where
  atr := atr
  transmit _ := Step.of answer

end Recording

end AccessRules
