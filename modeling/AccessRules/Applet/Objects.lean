import AccessRules.Bytes

/-!
# The applet and the tags of its commands

Commands and answers of the applet carry data objects of their own around the rules.
-/

namespace AccessRules.Applet

/-- The identifier of the applet that keeps the rules. -/
def aid : Bytes := [0xa0, 0x00, 0x00, 0x01, 0x51, 0x41, 0x43, 0x4c, 0x00]

/-- The label of the applet. -/
def label : String := "ADF.ARA-M"

/-- The command to store one rule. -/
def storeTag : Nat := 0xf0

/-- The command to delete rules; without a reference, all of them. -/
def deleteTag : Nat := 0xf1

/-- The answer that holds every rule. -/
def allRulesTag : Nat := 0xff40

/-- The request for the next piece of an answer. -/
def nextTag : Nat := 0xff60

/-- The answer that holds the configuration. -/
def configAnswerTag : Nat := 0xdf21

/-- The configuration of the device. -/
def deviceConfigTag : Nat := 0xe4

/-- The configuration of the applet. -/
def appletConfigTag : Nat := 0xe5

/-- A version of the interface. -/
def versionTag : Nat := 0xe6

end AccessRules.Applet
