/-!
# Blank characters

The characters that separate words and that are cut off at the ends of texts.
-/

namespace AccessRules.Text

/-- White space: the controls from tab to carriage return, the space separators of Unicode, the
line and paragraph separators, and the byte order mark. -/
def isBlank (c : Char) : Bool :=
  let n := c.toNat
  (0x09 ≤ n && n ≤ 0x0d) || n == 0x20 || n == 0xa0 || n == 0x1680 ||
    (0x2000 ≤ n && n ≤ 0x200a) || n == 0x2028 || n == 0x2029 || n == 0x202f || n == 0x205f ||
    n == 0x3000 || n == 0xfeff

/-- A text without the blanks at its end. -/
def trimEnd (text : String) : String :=
  String.ofList (text.toList.reverse.dropWhile isBlank).reverse

example : isBlank '\u200b' = false ∧ isBlank '\ufeff' = true := by decide

end AccessRules.Text
