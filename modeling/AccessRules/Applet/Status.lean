import AccessRules.Hex

/-!
# Status words

Every answer of a card ends in a status word of two octets. Those that the applet uses have a
meaning in words.
-/

namespace AccessRules.Applet

/-- The status words that the applet uses, and what they mean. -/
def statusWords : List (Nat × String) :=
  [(0x6381, "Rule successfully stored but an access rule already exists"),
    (0x6382,
      "Rule successfully stored but contained at least one unknown (discarded) BER-TLV"),
    (0x6581, "Memory problem"),
    (0x6700, "Wrong length in Lc"),
    (0x6981, "DO is not supported by the ARA-M"),
    (0x6982, "Security status not satisfied"),
    (0x6984, "Rules have been updated and must be read again / logical channels in use"),
    (0x6985, "Conditions not satisfied"),
    (0x6a80, "Incorrect values in the command data"),
    (0x6a82, "Application not found"),
    (0x6a84, "Rules have been updated and must be read again"),
    (0x6a86, "Incorrect P1 P2"),
    (0x6a88, "Referenced data not found"),
    (0x6a89, "Conflicting access rule already exists in the Secure Element"),
    (0x6d00, "Invalid instruction"),
    (0x6e00, "Invalid class")]

/-- What a status word means, if the applet uses it. -/
def meaning? (sw1 sw2 : Int) : Option String :=
  (statusWords.find? fun entry =>
    sw1 = (entry.1 / 256 : Nat) && sw2 = (entry.1 % 256 : Nat)).map Prod.snd

/-- A number in upper-case digits, at least two characters long. -/
def twoDigits (n : Int) : String := String.ofList ((Hex.signedUpper n).toList.leftpad 2 '0')

/-- A status word for display, with its meaning where it has one. -/
def describe (sw1 sw2 : Int) : String :=
  let word := "SW: " ++ twoDigits sw1 ++ twoDigits sw2
  match meaning? sw1 sw2 with
  | some meaning => word ++ " (" ++ meaning ++ ")"
  | none => word

/-! ## Answers -/

/-- The answer to a command: its data and its status word. -/
structure Response where
  data : Bytes
  sw1 : UInt8
  sw2 : UInt8
  deriving DecidableEq, Repr

namespace Response

/-- The answer that octets are: the last two are the status word, and missing ones count as
zero. -/
def ofOctets (octets : Bytes) : Response :=
  match octets.reverse with
  | sw2 :: sw1 :: data => ⟨data.reverse, sw1, sw2⟩
  | [sw2] => ⟨[], 0, sw2⟩
  | [] => ⟨[], 0, 0⟩

/-- Whether the status word is one of two octets. -/
def hasStatus (response : Response) (sw1 sw2 : UInt8) : Bool :=
  response.sw1 = sw1 && response.sw2 = sw2

/-- Whether the command was carried out. -/
def isOk (response : Response) : Bool := response.hasStatus 0x90 0x00

/-- Whether a rule was stored with a warning. -/
def isStoreWarning (response : Response) : Bool :=
  response.hasStatus 0x63 0x81 || response.hasStatus 0x63 0x82

/-- The last two octets of a reply are its status word. -/
theorem ofOctets_append (data : Bytes) (sw1 sw2 : UInt8) :
    ofOctets (data ++ [sw1, sw2]) = ⟨data, sw1, sw2⟩ := by
  simp [ofOctets]

end Response

example : describe (-1) 0 = "SW: -100" := by decide +kernel
example : describe 0x6d 0 = "SW: 6D00 (Invalid instruction)" := by decide +kernel

end AccessRules.Applet
