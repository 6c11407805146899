/-!
# Character references

An ampersand and a number or a name stand for a character. A semicolon ends the reference; old
names do without it.
-/

namespace StyleCheck.Html.Reference

/-- The names that need no semicolon, with the code points that they stand for. -/
def oldNames : List (String × Nat) :=
  [ ("AElig", 0xc6), ("AMP", 0x26), ("Aacute", 0xc1), ("Acirc", 0xc2), ("Agrave", 0xc0),
    ("Aring", 0xc5), ("Atilde", 0xc3), ("Auml", 0xc4), ("COPY", 0xa9), ("Ccedil", 0xc7),
    ("ETH", 0xd0), ("Eacute", 0xc9), ("Ecirc", 0xca), ("Egrave", 0xc8), ("Euml", 0xcb),
    ("GT", 0x3e), ("Iacute", 0xcd), ("Icirc", 0xce), ("Igrave", 0xcc), ("Iuml", 0xcf),
    ("LT", 0x3c), ("Ntilde", 0xd1), ("Oacute", 0xd3), ("Ocirc", 0xd4), ("Ograve", 0xd2),
    ("Oslash", 0xd8), ("Otilde", 0xd5), ("Ouml", 0xd6), ("QUOT", 0x22), ("REG", 0xae),
    ("THORN", 0xde), ("Uacute", 0xda), ("Ucirc", 0xdb), ("Ugrave", 0xd9), ("Uuml", 0xdc),
    ("Yacute", 0xdd), ("aacute", 0xe1), ("acirc", 0xe2), ("acute", 0xb4), ("aelig", 0xe6),
    ("agrave", 0xe0), ("amp", 0x26), ("aring", 0xe5), ("atilde", 0xe3), ("auml", 0xe4),
    ("brvbar", 0xa6), ("ccedil", 0xe7), ("cedil", 0xb8), ("cent", 0xa2), ("copy", 0xa9),
    ("curren", 0xa4), ("deg", 0xb0), ("divide", 0xf7), ("eacute", 0xe9), ("ecirc", 0xea),
    ("egrave", 0xe8), ("eth", 0xf0), ("euml", 0xeb), ("frac12", 0xbd), ("frac14", 0xbc),
    ("frac34", 0xbe), ("gt", 0x3e), ("iacute", 0xed), ("icirc", 0xee), ("iexcl", 0xa1),
    ("igrave", 0xec), ("iquest", 0xbf), ("iuml", 0xef), ("laquo", 0xab), ("lt", 0x3c),
    ("macr", 0xaf), ("micro", 0xb5), ("middot", 0xb7), ("nbsp", 0xa0), ("not", 0xac),
    ("ntilde", 0xf1), ("oacute", 0xf3), ("ocirc", 0xf4), ("ograve", 0xf2), ("ordf", 0xaa),
    ("ordm", 0xba), ("oslash", 0xf8), ("otilde", 0xf5), ("ouml", 0xf6), ("para", 0xb6),
    ("plusmn", 0xb1), ("pound", 0xa3), ("quot", 0x22), ("raquo", 0xbb), ("reg", 0xae),
    ("sect", 0xa7), ("shy", 0xad), ("sup1", 0xb9), ("sup2", 0xb2), ("sup3", 0xb3),
    ("szlig", 0xdf), ("thorn", 0xfe), ("times", 0xd7), ("uacute", 0xfa), ("ucirc", 0xfb),
    ("ugrave", 0xf9), ("uml", 0xa8), ("uuml", 0xfc), ("yacute", 0xfd), ("yen", 0xa5),
    ("yuml", 0xff) ]

/-- Common names that need a semicolon. -/
def newNames : List (String × Nat) :=
  [ ("apos", 0x27), ("hellip", 0x2026), ("mdash", 0x2014), ("ndash", 0x2013), ("lsquo", 0x2018),
    ("rsquo", 0x2019), ("ldquo", 0x201c), ("rdquo", 0x201d), ("bull", 0x2022), ("euro", 0x20ac),
    ("trade", 0x2122), ("larr", 0x2190), ("uarr", 0x2191), ("rarr", 0x2192), ("darr", 0x2193),
    ("lbrace", 0x7b), ("rbrace", 0x7d), ("num", 0x23), ("Tab", 0x9), ("NewLine", 0xa) ]

/-- What the code points from `0x80` to `0x9f` stand for by number. -/
def controlCodes : List Nat :=
  [ 0x20ac, 0x81, 0x201a, 0x192, 0x201e, 0x2026, 0x2020, 0x2021, 0x2c6, 0x2030, 0x160, 0x2039,
    0x152, 0x8d, 0x17d, 0x8f, 0x90, 0x2018, 0x2019, 0x201c, 0x201d, 0x2022, 0x2013, 0x2014,
    0x2dc, 0x2122, 0x161, 0x203a, 0x153, 0x9d, 0x17e, 0x178 ]

/-- The stand-in for characters that cannot be. -/
def replacement : Char := Char.ofNat 0xFFFD

/-- The character that a number stands for. -/
def ofCode (n : Nat) : Char :=
  if n = 0 ∨ !n.isValidChar then replacement
  else if 0x80 ≤ n ∧ n ≤ 0x9f then Char.ofNat (controlCodes[n - 0x80]?.getD n)
  else Char.ofNat n

/-- The value of a digit to a base. -/
def digit? (base : Nat) (c : Char) : Option Nat :=
  let n := if c.isDigit then c.toNat - 48 else if c.isLower then c.toNat - 87
    else if c.isUpper then c.toNat - 55 else base
  if n < base then some n else none

/-- The number at the front, whether it has digits, and what follows. -/
def number (base : Nat) (value : Nat) (any : Bool) : List Char → Nat × Bool × List Char
  | c :: rest =>
    match digit? base c with
    | some d => number base (base * value + d) true rest
    | none => (value, any, c :: rest)
  | [] => (value, any, [])

/-- The text past a semicolon. -/
def dropSemicolon : List Char → List Char
  | ';' :: rest => rest
  | text => text

/-- A reference by number, its `#` read. -/
def numeric? (text : List Char) : Option (Char × List Char) :=
  let (value, any, rest) := match text with
    | 'x' :: digits => number 16 0 false digits
    | 'X' :: digits => number 16 0 false digits
    | digits => number 10 0 false digits
  if any then some (ofCode value, dropSemicolon rest) else none

/-- The longest name of a table at the front of a text. -/
def longest? (table : List (String × Nat)) (text : List Char) : Option (String × Nat) :=
  (table.filter fun entry ↦ entry.1.toList.isPrefixOf text).foldl (fun best entry ↦
    match best with
    | some b => if b.1.length < entry.1.length then some entry else some b
    | none => some entry) none

/-- A reference by name. In the value of an attribute an old name without a semicolon is text if
more of a word or an equals sign follows. -/
def named? (inAttribute : Bool) (text : List Char) : Option (Char × List Char) :=
  let ended := newNames.map fun (name, code) ↦ (name ++ ";", code)
  match longest? (ended ++ oldNames) text with
  | none => none
  | some (name, code) =>
    let rest := text.drop name.length
    let isOpen := match rest with
      | c :: _ => c == '=' || c.isAlphanum
      | [] => false
    if name.endsWith ";" then some (Char.ofNat code, rest)
    else if inAttribute && isOpen then none
    else some (Char.ofNat code, dropSemicolon rest)

/-- The character that a reference stands for, its ampersand read, and what follows. -/
def decode? (inAttribute : Bool) : List Char → Option (Char × List Char)
  | '#' :: rest => numeric? rest
  | text => named? inAttribute text

end StyleCheck.Html.Reference
