import StyleCheck.Settings.Reading

/-!
# Writing settings

Settings as a JSON object that gives every one of them.
-/

namespace StyleCheck.Settings

/-- The two digits of a byte. -/
def twoHex (n : Nat) : String := String.ofList [Nat.digitChar (n / 16), Nat.digitChar (n % 16)]

/-- A character as it stands between double quotes. -/
def escapedChar (c : Char) : String :=
  match c with
  | '"' => "\\\""
  | '\\' => "\\\\"
  | '\x08' => "\\b"
  | '\x0c' => "\\f"
  | '\n' => "\\n"
  | '\r' => "\\r"
  | '\t' => "\\t"
  | c => if c.toNat < 0x20 then "\\u00" ++ twoHex c.toNat else c.toString

/-- A text between double quotes. -/
def quotedText (s : String) : String :=
  "\"" ++ String.join (s.toList.map escapedChar) ++ "\""

/-- The value of a setting. -/
def valueText (s : Settings) : Field → String
  | .strategy => quotedText s.strategy.name
  | .canonicalizeValues => if s.canonicalizeValues then "true" else "false"
  | .styleSourceAttribute => quotedText s.styleSourceAttribute
  | .logFilter =>
    match s.logFilter with
    | some filter => quotedText filter
    | none => "null"

/-- The settings as a text that gives them again. -/
def text (s : Settings) : String :=
  "\x7b" ++
    ",".intercalate (Field.all.map fun field ↦ quotedText field.name ++ ":" ++ s.valueText field) ++
    "\x7d"

end StyleCheck.Settings
