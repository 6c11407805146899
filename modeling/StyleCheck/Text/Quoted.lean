import StyleCheck.Text.Unprintable

/-!
# Quoted text

A text shown between double quotes. The quote and the backslash are escaped, four controls have
short escapes, and a character without a mark of its own is spelt by its code point.
-/

namespace StyleCheck.Text

/-- The escape with the hexadecimal code point, in small digits without leading zeros. -/
def codePointEscape (c : Char) : String :=
  "\\u\x7b" ++ String.ofList (Nat.toDigits 16 c.toNat) ++ "\x7d"

/-- One character inside double quotes. -/
def quotedChar (c : Char) : String :=
  match c with
  | '\x00' => "\\0"
  | '\t' => "\\t"
  | '\r' => "\\r"
  | '\n' => "\\n"
  | '\\' => "\\\\"
  | '"' => "\\\""
  | c => if isUnprintable c then codePointEscape c else c.toString

/-- The text between double quotes, with escapes. -/
def quoted (s : String) : String := "\"" ++ String.join (s.toList.map quotedChar) ++ "\""

end StyleCheck.Text
