import StyleCheck.Decimal.Parts
import StyleCheck.Settings.Error
import StyleCheck.Text.Bytes
import StyleCheck.Text.Hexadecimal

/-!
# Literals of a settings text

Words, texts between double quotes, and numbers. Numbers occur only where another kind of value is
expected, so what is kept of one is how it is reported.
-/

namespace StyleCheck.Settings

namespace Cursor

/-- An error at the cursor. -/
def fail {α : Type} (c : Cursor) (problem : Problem) : Except SettingsError α :=
  .error ⟨problem, c.place⟩

/-- An error at the character that stands next. -/
def failAhead {α : Type} (c : Cursor) (problem : Problem) : Except SettingsError α :=
  .error ⟨problem, c.ahead⟩

/-- Pass over the rest of a word. -/
def word (c : Cursor) : List Char → Except SettingsError Cursor
  | [] => .ok c
  | expected :: more =>
    match c.rest with
    | [] => c.fail .endForValue
    | next :: _ => if next = expected then c.skip.word more else c.failAhead .noWord

/-! ### Texts -/

/-- The characters that a letter after a backslash stands for. -/
def shortEscape? : Char → Option Char
  | '"' => some '"'
  | '\\' => some '\\'
  | '/' => some '/'
  | 'b' => some '\x08'
  | 'f' => some '\x0c'
  | 'n' => some '\n'
  | 'r' => some '\r'
  | 't' => some '\t'
  | _ => none

/-- The number that the next four bytes spell as hexadecimal digits. -/
def fourHex (c : Cursor) : Except SettingsError Nat :=
  if Text.byteLength c.rest < 4 then .error ⟨.endInText, c.place.pastAll c.rest⟩
  else
    match Text.hexNumber (c.rest.take 4) with
    | some n => .ok n
    | none => .error ⟨.badEscape, c.place.pastBytes 4 c.rest⟩

/-- Whether a code unit is the first of a pair. -/
def isHighSurrogate (n : Nat) : Bool := 0xD800 ≤ n && n ≤ 0xDBFF

/-- Whether a code unit is the second of a pair. -/
def isLowSurrogate (n : Nat) : Bool := 0xDC00 ≤ n && n ≤ 0xDFFF

/-- The character of a pair of code units. -/
def pairChar (high low : Nat) : Char :=
  Char.ofNat ((high - 0xD800) * 0x400 + (low - 0xDC00) + 0x10000)

/-- The second half of a pair, escape and all. -/
def lowSurrogate (c : Cursor) : Except SettingsError Nat :=
  match c.rest with
  | [] => c.fail .endInText
  | '\\' :: [] => c.skip.fail .endInText
  | '\\' :: 'u' :: _ => do
    let c := c.skipMany 2
    let n ← c.fourHex
    if isLowSurrogate n then .ok n else (c.skipMany 4).fail .loneSurrogate
  | '\\' :: _ => c.skip.failAhead .shortHexEscape
  | _ => c.failAhead .shortHexEscape

/-- The character that an escape stands for, its backslash read, and the length of the escape. -/
def escape (c : Cursor) : Except SettingsError (Char × Nat) :=
  match c.rest with
  | [] => c.fail .endInText
  | 'u' :: _ => do
    let c := c.skip
    let n ← c.fourHex
    if isLowSurrogate n then (c.skipMany 4).fail .loneSurrogate
    else if isHighSurrogate n then
      let low ← (c.skipMany 4).lowSurrogate
      .ok (pairChar n low, 11)
    else .ok (Char.ofNat n, 5)
  | letter :: _ =>
    match shortEscape? letter with
    | some char => .ok (char, 1)
    | none => c.failAhead .badEscape

/-- The text up to a double quote; what was read of it is given from its end. -/
def textFrom (c : Cursor) (read : List Char) : Except SettingsError (String × Cursor) :=
  match _h : c.rest with
  | [] => c.fail .endInText
  | '"' :: _ => .ok (String.ofList read.reverse, c.skip)
  | '\\' :: _ =>
    match c.skip.escape with
    | .ok (char, length) => (c.skipMany (length + 1)).textFrom (char :: read)
    | .error e => .error e
  | char :: _ =>
    if char.toNat < 0x20 then c.failAhead .controlCharacter else c.skip.textFrom (char :: read)
termination_by c.rest.length
decreasing_by
  · simp only [skipMany, _h, List.length_drop, List.length_cons]; omega
  · simp only [skip, _h, List.length_cons]; omega

/-- The text after its opening quote. -/
def text (c : Cursor) : Except SettingsError (String × Cursor) := c.textFrom []

/-! ### Numbers -/

/-- Append digits to a number as long as it stays within a limit: the number, and the digits that
are left over. -/
def absorb (limit : Nat) : Nat → List Char → Nat × List Char
  | n, [] => (n, [])
  | n, d :: rest =>
    let next := 10 * n + (d.toNat - '0'.toNat)
    if limit < next then (n, d :: rest) else absorb limit next rest

/-- The greatest number of 64 bits. -/
def greatestSignificand : Nat := 0xFFFFFFFFFFFFFFFF

/-- The greatest exponent that is not out of range of itself. -/
def greatestExponent : Nat := 0x7FFFFFFF

/-- How a number is reported that has a point or an exponent or more digits than an integer. -/
def decimal (negative : Bool) (x : Float) : Found :=
  .decimal (Decimal.ofDoublePointed (if negative then -x else x))

/-- The number with the given parts, read up to the cursor. -/
def scaled (c : Cursor) (negative : Bool) (significand : Nat) (exponent : Int) :
    Except SettingsError (Found × Cursor) :=
  match Decimal.ofParts significand exponent with
  | some x => .ok (decimal negative x, c)
  | none => c.fail .hugeNumber

/-- The exponent of a number, from its letter on. -/
def exponentPart (c : Cursor) (negative : Bool) (significand : Nat) (start : Int) :
    Except SettingsError (Found × Cursor) :=
  let c := c.skip
  let (down, c) := match c.rest with
    | '+' :: _ => (false, c.skip)
    | '-' :: _ => (true, c.skip)
    | _ => (false, c)
  match c.rest, c.digits with
  | [], _ => c.fail .endForValue
  | _, [] => c.failAhead .badNumber
  | _, digits =>
    let (size, left) := absorb greatestExponent 0 digits
    let past := c.skipMany digits.length
    if left.isEmpty then
      past.scaled negative significand (if down then start - size else start + size)
    else if significand ≠ 0 && !down then
      (c.skipMany (digits.length - left.length + 1)).fail .hugeNumber
    else .ok (decimal negative 0, past)

/-- The exponent of a number, if it has one. -/
def exponentOr (c : Cursor) (negative : Bool) (significand : Nat) (exponent : Int) :
    Except SettingsError (Found × Cursor) :=
  match c.rest with
  | 'e' :: _ | 'E' :: _ => c.exponentPart negative significand exponent
  | _ => c.scaled negative significand exponent

/-- The digits after the point, from the point on. -/
def fractionPart (c : Cursor) (negative : Bool) (significand : Nat) (exponent : Int) :
    Except SettingsError (Found × Cursor) :=
  let c := c.skip
  match c.rest, c.digits with
  | [], [] => c.fail .endForValue
  | _, [] => c.failAhead .badNumber
  | _, digits =>
    let (significand, left) := absorb greatestSignificand significand digits
    (c.skipMany digits.length).exponentOr negative significand
      (exponent - (digits.length - left.length : Nat))

/-- How an integer is reported. A negative one has 63 bits. -/
def whole (negative : Bool) (n : Nat) : Found :=
  if !negative then .integer n
  else if 0 < n && n ≤ 0x8000000000000000 then .integer (-n)
  else decimal true (Float.ofNat n)

/-- The number with the given integer digits, read up to the cursor. -/
def afterInteger (c : Cursor) (negative : Bool) (digits : List Char) :
    Except SettingsError (Found × Cursor) :=
  let (significand, left) := absorb greatestSignificand 0 digits
  match c.rest with
  | '.' :: _ => c.fractionPart negative significand left.length
  | 'e' :: _ | 'E' :: _ => c.exponentPart negative significand left.length
  | _ =>
    if left.isEmpty then .ok (whole negative significand, c)
    else c.scaled negative significand left.length

/-- A number, its sign read. -/
def number (c : Cursor) (negative : Bool) : Except SettingsError (Found × Cursor) :=
  match c.rest, c.digits with
  | [], _ => c.fail .endForValue
  | _, [] => c.failAhead .badNumber
  | _, '0' :: _ :: _ => c.skip.failAhead .badNumber
  | _, digits => (c.skipMany digits.length).afterInteger negative digits

end Cursor

end StyleCheck.Settings
