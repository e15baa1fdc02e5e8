import AccessRules.Applet.Basic
import AccessRules.Card.Memory
import AccessRules.Card.Recording
import AccessRules.Main
import AccessRules.Proofs.Tlv.Element
import AccessRules.Proofs.Rule.Limits
import AccessRules.Proofs.Applet.Storing
import AccessRules.Proofs.Canonical.NormalForm
import AccessRules.Proofs.Replay.Lines
import AccessRules.Proofs.Replay.Mirror
import AccessRules.Proofs.Replay.Restore
import AccessRules.Proofs.Rule.Spelling
import AccessRules.Proofs.Tlv.Row
import AccessRules.Proofs.Replay.Batch
import AccessRules.Proofs.Applet.Selection
import AccessRules.Proofs.RoundTrip.Card
import AccessRules.Proofs.Store.Lookup
import AccessRules.Proofs.RoundTrip.Calls
import AccessRules.Proofs.Store.Log
import AccessRules.Proofs.RoundTrip.Safety
import AccessRules.Proofs.Rule.Reordering
import AccessRules.Proofs.Card.References
import AccessRules.Proofs.Applet.Whole
import AccessRules.Proofs.Command.Agreement
import AccessRules.Proofs.Script.Grammar
import AccessRules.Proofs.Canonical.Locating
import AccessRules.Proofs.Applet.Cutting
import AccessRules.Proofs.Applet.Sending
import AccessRules.Proofs.RoundTrip.Labels
import AccessRules.Proofs.Command.Notation
import AccessRules.Proofs.Replay.Repetition
import AccessRules.Proofs.RoundTrip.Sameness
import AccessRules.Proofs.Outline.Rows
import AccessRules.Proofs.Replay.Layout
