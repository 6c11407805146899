import StyleCheck.Style.Written

/-!
# The source of a style sheet

The grammar that the scanner of written declarations goes by. Every part of a sheet is a fragment:
characters, strings, comments and groups, one after the other, each closed where it must be. A
fragment has a text, and its content is that text without comments. A sheet says of itself which
declarations its style rules hold.
-/

namespace StyleCheck.Style.Source

/-! ### Fragments -/

/-- What stands in a string: characters behind a backslash, and others but the quote. -/
inductive Quoted (quote : Char) : List Char → Prop
  | nil : Quoted quote []
  | escaped {c : Char} {cs : List Char} (rest : Quoted quote cs) : Quoted quote ('\\' :: c :: cs)
  | plain {c : Char} {cs : List Char} (differs : c ≠ quote) (bare : c ≠ '\\')
      (rest : Quoted quote cs) : Quoted quote (c :: cs)

/-- Characters, strings, comments and groups, one after the other. -/
inductive Fragment
  | nil
  | char (c : Char) (rest : Fragment)
  | string (quote : Char) (inside : List Char) (rest : Fragment)
  | comment (inside : List Char) (rest : Fragment)
  | group (opening closing : Char) (inside rest : Fragment)

namespace Fragment

/-- The fragment as written. -/
def text : Fragment → List Char
  | nil => []
  | char c rest => c :: rest.text
  | string quote inside rest => quote :: (inside ++ quote :: rest.text)
  | comment inside rest => '/' :: '*' :: (inside ++ '*' :: '/' :: rest.text)
  | group opening closing inside rest => opening :: (inside.text ++ closing :: rest.text)

/-- The fragment as written, without comments. -/
def content : Fragment → List Char
  | nil => []
  | char c rest => c :: rest.content
  | string quote inside rest => quote :: (inside ++ quote :: rest.content)
  | comment _ rest => rest.content
  | group opening closing inside rest => opening :: (inside.content ++ closing :: rest.content)

/-- One fragment after another. -/
def append : Fragment → Fragment → Fragment
  | nil, g => g
  | char c rest, g => .char c (rest.append g)
  | string quote inside rest, g => .string quote inside (rest.append g)
  | comment inside rest, g => .comment inside (rest.append g)
  | group opening closing inside rest, g => .group opening closing inside (rest.append g)

/-- The characters of a text. -/
def ofChars : List Char → Fragment
  | [] => .nil
  | c :: cs => .char c (ofChars cs)

/-- Strings and comments are closed, and no two characters look like the beginning of a comment.
Groups stand between `pairs`; the characters in groups are `inner`, those outside `outer`. -/
def Over (pairs : List (Char × Char)) (inner : Char → Prop) : (Char → Prop) → Fragment → Prop
  | _, nil => True
  | outer, char c rest =>
    outer c ∧ (c = '/' → rest.text.head? ≠ some '*') ∧ Over pairs inner outer rest
  | outer, string quote inside rest =>
    Scanner.isQuote quote ∧ Quoted quote inside ∧ Over pairs inner outer rest
  | outer, comment inside rest => ¬ ['*', '/'] <:+: inside ∧ Over pairs inner outer rest
  | outer, group opening closing inside rest =>
    (opening, closing) ∈ pairs ∧ Over pairs inner inner inside ∧ Over pairs inner outer rest

/-- Parentheses and brackets. -/
def brackets : List (Char × Char) := [('(', ')'), ('[', ']')]

/-- Neither a quotation mark nor a brace. -/
def Unbraced (c : Char) : Prop := ¬ Scanner.isQuote c ∧ c ≠ '\x7b' ∧ c ≠ '\x7d'

/-- A character that means nothing to the scanner but perhaps the end of a piece. -/
def Ordinary (c : Char) : Prop := Unbraced c ∧ c ∉ ['(', ')', '[', ']', '\\']

instance (c : Char) : Decidable (Unbraced c) :=
  inferInstanceAs (Decidable (¬ Scanner.isQuote c ∧ c ≠ '\x7b' ∧ c ≠ '\x7d'))

instance (c : Char) : Decidable (Ordinary c) :=
  inferInstanceAs (Decidable (Unbraced c ∧ c ∉ ['(', ')', '[', ']', '\\']))

/-- A name, a prelude or a value: no brace and no backslash outside strings and comments, and no
semicolon outside groups. -/
def IsPiece : Fragment → Prop := Over brackets Ordinary fun c ↦ Ordinary c ∧ c ≠ ';'

/-- A character that means nothing to the scanner outside strings but perhaps the end of a piece. A
backslash is one. -/
def Loose (c : Char) : Prop := Unbraced c ∧ c ∉ ['(', ')', '[', ']']

instance (c : Char) : Decidable (Loose c) :=
  inferInstanceAs (Decidable (Unbraced c ∧ c ∉ ['(', ')', '[', ']']))

/-- A piece in which backslashes may stand anywhere. -/
def IsLoose : Fragment → Prop := Over brackets Loose fun c ↦ Loose c ∧ c ≠ ';'

/-- The inside of a block: braces are balanced. -/
def IsBlock : Fragment → Prop := Over (('\x7b', '\x7d') :: brackets) Unbraced Unbraced

variable {pairs pairs' : List (Char × Char)} {inner inner' outer outer' : Char → Prop}

theorem Over.mono {f : Fragment} (h : f.Over pairs inner outer) (hpairs : pairs ⊆ pairs')
    (hinner : ∀ c, inner c → inner' c) (houter : ∀ c, outer c → outer' c) :
    f.Over pairs' inner' outer' := by
  induction f generalizing outer outer' with
  | nil => trivial
  | char c f ih =>
    obtain ⟨hc, hslash, h⟩ := h
    exact ⟨houter c hc, hslash, ih h houter⟩
  | string quote inside f ih =>
    obtain ⟨hquote, hinside, h⟩ := h
    exact ⟨hquote, hinside, ih h houter⟩
  | comment inside f ih =>
    obtain ⟨hinside, h⟩ := h
    exact ⟨hinside, ih h houter⟩
  | group opening closing inside f ih₁ ih₂ =>
    obtain ⟨hpair, hinside, h⟩ := h
    exact ⟨hpairs hpair, ih₁ hinside hinner, ih₂ h houter⟩

theorem Ordinary.loose {c : Char} (h : Ordinary c) : Loose c := by
  obtain ⟨hbraced, hmem⟩ := h
  exact ⟨hbraced, fun hc ↦ hmem (List.mem_append_left ['\\'] hc)⟩

theorem IsPiece.isLoose {f : Fragment} (h : f.IsPiece) : f.IsLoose :=
  h.mono (List.Subset.refl _) (fun _ hc ↦ hc.loose) (fun _ hc ↦ ⟨hc.1.loose, hc.2⟩)

/-- A piece can stand in a block. -/
theorem IsLoose.isBlock {f : Fragment} (h : f.IsLoose) : f.IsBlock :=
  h.mono (List.subset_cons_self _ _) (fun _ hc ↦ hc.1) (fun _ hc ↦ hc.1.1)

theorem IsPiece.isBlock {f : Fragment} (h : f.IsPiece) : f.IsBlock := h.isLoose.isBlock

/-- A piece behind a character of its own. -/
theorem IsPiece.char {c : Char} {f : Fragment} (hc : (Ordinary c ∧ c ≠ ';') ∧ c ≠ '/')
    (hf : f.IsPiece) : (Fragment.char c f).IsPiece :=
  ⟨hc.1, fun h ↦ absurd h hc.2, hf⟩

theorem text_append (f g : Fragment) : (f.append g).text = f.text ++ g.text := by
  induction f with
  | nil => rfl
  | char c f ih => simp [append, text, ih]
  | string quote inside f ih => simp [append, text, ih]
  | comment inside f ih => simp [append, text, ih]
  | group opening closing inside f _ ih => simp [append, text, ih]

theorem content_append (f g : Fragment) : (f.append g).content = f.content ++ g.content := by
  induction f with
  | nil => rfl
  | char c f ih => simp [append, content, ih]
  | string quote inside f ih => simp [append, content, ih]
  | comment inside f ih => simp [append, content, ih]
  | group opening closing inside f _ ih => simp [append, content, ih]

/-- Two fragments make one where no comment opens at the seam. -/
theorem Over.append {f g : Fragment} (hf : f.Over pairs inner outer)
    (hg : g.Over pairs inner outer)
    (hseam : f.text.getLast? = some '/' → g.text.head? ≠ some '*') :
    (f.append g).Over pairs inner outer := by
  induction f with
  | nil => exact hg
  | char c f ih =>
    obtain ⟨hc, hslash, hf⟩ := hf
    refine ⟨hc, fun h ↦ ?_, ih hf fun hlast ↦ hseam (by simp [text, List.getLast?_cons, hlast])⟩
    rw [text_append]
    cases htext : f.text with
    | nil => exact hseam (by simp [text, htext, h])
    | cons d cs =>
      have hhead := hslash h
      rwa [htext] at hhead
  | string quote inside f ih =>
    obtain ⟨hquote, hinside, hf⟩ := hf
    exact ⟨hquote, hinside, ih hf fun hlast ↦ hseam (by simp [text, List.getLast?_cons, hlast])⟩
  | comment inside f ih =>
    obtain ⟨hinside, hf⟩ := hf
    exact ⟨hinside, ih hf fun hlast ↦ hseam (by simp [text, List.getLast?_cons, hlast])⟩
  | group opening closing inside f _ ih =>
    obtain ⟨hpair, hinside, hf⟩ := hf
    refine ⟨hpair, hinside, ih hf fun hlast ↦ hseam ?_⟩
    simp [text, List.getLast?_cons, hlast]

theorem text_ofChars (cs : List Char) : (ofChars cs).text = cs := by
  induction cs with
  | nil => rfl
  | cons c cs ih => rw [ofChars, text, ih]

theorem content_ofChars (cs : List Char) : (ofChars cs).content = cs := by
  induction cs with
  | nil => rfl
  | cons c cs ih => rw [ofChars, content, ih]

theorem over_ofChars {cs : List Char} (h : ∀ c ∈ cs, outer c ∧ c ≠ '/') :
    (ofChars cs).Over pairs inner outer := by
  induction cs with
  | nil => trivial
  | cons c cs ih =>
    obtain ⟨hc, hslash⟩ := h c List.mem_cons_self
    exact ⟨hc, fun heq ↦ absurd heq hslash, ih fun d hd ↦ h d (List.mem_cons_of_mem c hd)⟩

end Fragment

/-- A name, a prelude or a value. -/
def Piece := {f : Fragment // f.IsPiece}

/-- The inside of a block. -/
def Block := {f : Fragment // f.IsBlock}

/-- Whitespace and comments. -/
def Trivia := {f : Fragment // f.IsPiece ∧ ∀ c ∈ f.content, Text.isSpace c}

/-! ### Declarations -/

/-- The word `important` in any letter case. -/
def IsImportant (word : List Char) : Prop := Text.lower (String.ofList word) = "important"

/-- A text that ends in a mark of importance. -/
def EndsImportant (cs : List Char) : Prop :=
  ∃ before gap word after, cs = before ++ '!' :: (gap ++ word ++ after) ∧
    (∀ c ∈ gap, Text.isSpace c) ∧ IsImportant word ∧ ∀ c ∈ after, Text.isSpace c

/-- A mark of importance. -/
structure Mark where
  before : Trivia
  word : List Char
  after : Trivia
  important : IsImportant word

/-- A name, a colon, a value and perhaps a mark of importance. -/
structure Declaration where
  name : Piece
  value : Piece
  mark : Option Mark
  named : ':' ∉ name.val.content
  unmarked : mark = none → ¬ EndsImportant value.val.content

/-- The mark with its exclamation mark. -/
def Mark.source (m : Mark) : Fragment :=
  .char '!' (m.before.val.append ((Fragment.ofChars m.word).append m.after.val))

/-- The declaration as a fragment. -/
def Declaration.source (d : Declaration) : Fragment :=
  d.name.val.append (.char ':' (d.value.val.append (d.mark.elim .nil Mark.source)))

/-- What is declared: the name without comments and the whitespace around it, lowered unless it is
a custom one, and the value without them. A blank name declares nothing. -/
def Declaration.written? (d : Declaration) : Option WrittenDeclaration :=
  let name := Text.trimChars d.name.val.content
  let value := Text.trimChars d.value.val.content
  if name = [] then none
  else
    some
      { property :=
          if ['-', '-'] <+: name then String.ofList name else Text.lower (String.ofList name)
        value := String.ofList value
        important := d.mark.isSome }

/-! ### Rules and sheets -/

/-- A part of a style rule's body: a declaration before a semicolon, or a nested rule. -/
inductive BodyItem
  | declaration (d : Declaration)
  | rule (prelude : Piece) (block : Block)

/-- The end of a style rule's body: a declaration that no semicolon ends, or nothing. -/
inductive BodyEnd
  | declaration (d : Declaration)
  | nothing (trivia : Trivia)

/-- A style rule. -/
structure StyleRule where
  prelude : Piece
  body : List BodyItem
  last : BodyEnd
  isStyle : (prelude.val.content.dropWhile Text.isSpace).head? ≠ some '@'

/-- An item of a sheet; the prelude of the first two stands behind `@`. -/
inductive Item
  | statement (prelude : Piece)
  | atRule (prelude : Piece) (block : Block)
  | style (rule : StyleRule)

/-- Items, each behind whitespace and comments, and what stands behind the last one. -/
structure Sheet where
  items : List (Trivia × Item)
  after : Trivia

/-- A prelude and a block behind it. -/
def blockSource (prelude block : Fragment) : Fragment :=
  prelude.append (.group '\x7b' '\x7d' block .nil)

def BodyItem.source : BodyItem → Fragment
  | .declaration d => d.source.append (.char ';' .nil)
  | .rule prelude block => blockSource prelude.val block.val

def BodyEnd.source : BodyEnd → Fragment
  | .declaration d => d.source
  | .nothing trivia => trivia.val

/-- The inside of a style rule's block. -/
def StyleRule.inside (r : StyleRule) : Fragment :=
  r.body.foldr (fun item rest ↦ item.source.append rest) r.last.source

def Item.source : Item → Fragment
  | .statement prelude => .char '@' (prelude.val.append (.char ';' .nil))
  | .atRule prelude block => .char '@' (blockSource prelude.val block.val)
  | .style rule => blockSource rule.prelude.val rule.inside

/-- The sheet as a fragment. -/
def Sheet.source (s : Sheet) : Fragment :=
  s.items.foldr (fun item rest ↦ item.1.val.append (item.2.source.append rest)) s.after.val

/-- The sheet as written. -/
def Sheet.text (s : Sheet) : String := String.ofList s.source.text

def BodyItem.written? : BodyItem → Option WrittenDeclaration
  | .declaration d => d.written?
  | .rule _ _ => none

def BodyEnd.written? : BodyEnd → Option WrittenDeclaration
  | .declaration d => d.written?
  | .nothing _ => none

/-- What a style rule declares itself, in order. -/
def StyleRule.declared (r : StyleRule) : List WrittenDeclaration :=
  r.body.filterMap BodyItem.written? ++ r.last.written?.toList

/-- The style rule that an item is. -/
def Item.style? : Item → Option StyleRule
  | .style rule => some rule
  | _ => none

/-- What each style rule declares, in order. -/
def Sheet.blocks (s : Sheet) : List (List WrittenDeclaration) :=
  (s.items.filterMap fun item ↦ item.2.style?).map StyleRule.declared

end StyleCheck.Style.Source
