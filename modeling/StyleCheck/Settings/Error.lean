import StyleCheck.Settings.Cursor
import StyleCheck.Text.Quoted

/-!
# Errors of a settings text

A settings text is a JSON value that gives some of the settings. An error is a problem and the
place where the reader stood.
-/

namespace StyleCheck.Settings

/-- A setting. -/
inductive Field
  | strategy
  | canonicalizeValues
  | styleSourceAttribute
  | logFilter
  deriving DecidableEq, Repr

namespace Field

/-- The settings in order. -/
def all : List Field := [.strategy, .canonicalizeValues, .styleSourceAttribute, .logFilter]

/-- The name of a setting. -/
def name : Field → String
  | .strategy => "strategy"
  | .canonicalizeValues => "canonicalizeValues"
  | .styleSourceAttribute => "styleSourceAttribute"
  | .logFilter => "logFilter"

/-- The setting with a name. -/
def ofName? (name : String) : Option Field := all.find? (·.name == name)

end Field

/-- The kind of value that a place calls for. -/
inductive Expected
  | settings
  | boolean
  | text
  | variantName
  | nothing
  deriving DecidableEq, Repr

/-- The name of a kind of value. -/
def Expected.describe : Expected → String
  | .settings => "struct Config"
  | .boolean => "a boolean"
  | .text => "a string"
  | .variantName => "variant identifier"
  | .nothing => "unit"

/-- The value that was found in place of another. -/
inductive Found
  | null
  | boolean (value : Bool)
  | integer (value : Int)
  | decimal (text : String)
  | text (value : String)
  | list
  | object
  deriving DecidableEq, Repr

/-- The wording of a found value. -/
def Found.describe : Found → String
  | .null => "null"
  | .boolean value => "boolean `" ++ toString value ++ "`"
  | .integer value => "integer `" ++ toString value ++ "`"
  | .decimal digits => "floating point `" ++ digits ++ "`"
  | .text value => "string " ++ Text.quoted value
  | .list => "sequence"
  | .object => "map"

/-- Why a text gives no settings. -/
inductive Problem
  | endInList
  | endInObject
  | endInText
  | endForValue
  | noColon
  | noCommaInList
  | noCommaInObject
  | noWord
  | noValue
  | badEscape
  | badNumber
  | hugeNumber
  | loneSurrogate
  | shortHexEscape
  | controlCharacter
  | keyNotText
  | trailingComma
  | trailingCharacters
  | wrongKind (found : Found) (expected : Expected)
  | unknownVariant (name : String)
  | unknownField (name : String)
  | duplicateField (field : Field)
  deriving DecidableEq, Repr

/-- A name between backticks. -/
def ticked (name : String) : String := "`" ++ name ++ "`"

/-- The wording of a problem. -/
def Problem.describe : Problem → String
  | .endInList => "EOF while parsing a list"
  | .endInObject => "EOF while parsing an object"
  | .endInText => "EOF while parsing a string"
  | .endForValue => "EOF while parsing a value"
  | .noColon => "expected `:`"
  | .noCommaInList => "expected `,` or `]`"
  | .noCommaInObject => "expected `,` or `\x7d`"
  | .noWord => "expected ident"
  | .noValue => "expected value"
  | .badEscape => "invalid escape"
  | .badNumber => "invalid number"
  | .hugeNumber => "number out of range"
  | .loneSurrogate => "lone leading surrogate in hex escape"
  | .shortHexEscape => "unexpected end of hex escape"
  | .controlCharacter =>
    "control character (\\u0000-\\u001F) found while parsing a string"
  | .keyNotText => "key must be a string"
  | .trailingComma => "trailing comma"
  | .trailingCharacters => "trailing characters"
  | .wrongKind found expected =>
    "invalid type: " ++ found.describe ++ ", expected " ++ expected.describe
  | .unknownVariant name =>
    "unknown variant " ++ ticked name ++ ", expected " ++ ticked "anyDeclaration" ++ " or " ++
      ticked "cascade"
  | .unknownField name =>
    "unknown field " ++ ticked name ++ ", expected one of " ++
      ", ".intercalate (Field.all.map fun field ↦ ticked field.name)
  | .duplicateField field => "duplicate field " ++ ticked field.name

/-- A problem and the place of the reader that met it. -/
structure SettingsError where
  problem : Problem
  place : Place
  deriving DecidableEq, Repr

/-- The error as one line. -/
def SettingsError.message (e : SettingsError) : String :=
  "invalid configuration: " ++ e.problem.describe ++ " at line " ++ toString e.place.line ++
    " column " ++ toString e.place.column

end StyleCheck.Settings
