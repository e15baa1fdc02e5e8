import AccessRules.Bytes
import AccessRules.Step

/-!
# Where rules are kept besides the store

A replay can carry out every operation a second time on a transport, such as the applet of a card.
What a transport is made of is left open.
-/

namespace AccessRules

/-- An application that has been selected: the label it was asked for by, its identifier, and what
it said of itself. -/
structure Selection where
  label : String
  aid : Bytes
  fci : Bytes := []
  deriving DecidableEq, Repr

/-- A keeper of rules with states `σ` that fails with an `ε`. -/
structure Transport (σ ε : Type) where
  /-- Selects an application by its label. -/
  select : String → Step σ ε Selection
  /-- Stores every rule of the encodings in a row. -/
  send : Selection → Bytes → Step σ ε Unit
  /-- Deletes every rule. -/
  deleteAll : Selection → Step σ ε Unit
  /-- Reads the encodings of all rules in a row. -/
  readAll : Selection → Step σ ε Bytes

end AccessRules
