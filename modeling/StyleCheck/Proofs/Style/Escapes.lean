import StyleCheck.Proofs.Style.Recovery

/-!
# Escapes in the source of a style sheet

To the scanner a backslash outside strings is a character like any other, and so is what stands
behind it. Main statement: letters may stand for escapes in preludes and values without a change of
the names and the marks of importance found in a sheet, where the escaped characters mean nothing to
the scanner or are brackets that close each other.
-/

namespace StyleCheck.Style

open Source Text

namespace Source.Escaped

/-! ### Runs -/

/-- Characters, escapes, strings, comments and groups, one after the other. Letters may stand for
the marked escapes. Brackets of which each is escaped are one escape around what they enclose. -/
inductive Run
  | nil
  | char (c : Char) (rest : Run)
  | escape (c : Char) (marked : Bool) (rest : Run)
  | escapedPair (opening closing : Char) (marked : Bool) (inside rest : Run)
  | string (quote : Char) (inside : List Char) (rest : Run)
  | comment (inside : List Char) (rest : Run)
  | group (opening closing : Char) (inside rest : Run)

namespace Run

/-- The run as a fragment, with two letters for each backslash and the character behind it where
escapes are replaced. -/
def fragment (replace : Bool) : Run → Fragment
  | nil => .nil
  | char c rest => .char c (rest.fragment replace)
  | escape c marked rest =>
    if replace && marked then .char 'x' (.char 'x' (rest.fragment replace))
    else .char '\\' (.char c (rest.fragment replace))
  | escapedPair opening closing marked inside rest =>
    if replace && marked then
      .char 'x' (.char 'x' ((inside.fragment replace).append
        (.char 'x' (.char 'x' (rest.fragment replace)))))
    else
      .char '\\' (.group opening closing ((inside.fragment replace).append (.char '\\' .nil))
        (rest.fragment replace))
  | string quote inside rest => .string quote inside (rest.fragment replace)
  | comment inside rest => .comment inside (rest.fragment replace)
  | group opening closing inside rest =>
    .group opening closing (inside.fragment replace) (rest.fragment replace)

/-- The characters behind backslashes. -/
def escaped : Run → List Char
  | nil => []
  | char _ rest => rest.escaped
  | escape c _ rest => c :: rest.escaped
  | escapedPair opening closing _ inside rest =>
    opening :: (inside.escaped ++ closing :: rest.escaped)
  | string _ _ rest => rest.escaped
  | comment _ rest => rest.escaped
  | group _ _ inside rest => inside.escaped ++ rest.escaped

/-- As for fragments; what is escaped is like other characters. -/
def Over (pairs : List (Char × Char)) (inner : Char → Prop) : (Char → Prop) → Run → Prop
  | _, nil => True
  | outer, char c rest =>
    outer c ∧ (c = '/' → (rest.fragment false).text.head? ≠ some '*') ∧ Over pairs inner outer rest
  | outer, escape c _ rest =>
    outer c ∧ (c = '/' → (rest.fragment false).text.head? ≠ some '*') ∧ Over pairs inner outer rest
  | outer, escapedPair opening closing _ inside rest =>
    (opening, closing) ∈ Fragment.brackets ∧ Over pairs inner outer inside ∧
      Over pairs inner outer rest
  | outer, string quote inside rest =>
    Scanner.isQuote quote ∧ Quoted quote inside ∧ Over pairs inner outer rest
  | outer, comment inside rest => ¬ ['*', '/'] <:+: inside ∧ Over pairs inner outer rest
  | outer, group opening closing inside rest =>
    (opening, closing) ∈ pairs ∧ Over pairs inner inner inside ∧ Over pairs inner outer rest

/-- A prelude or a value: no brace, quotation mark or bracket is escaped but the brackets that close
each other, and no semicolon outside groups. -/
def IsPiece : Run → Prop :=
  Over Fragment.brackets Fragment.Loose fun c ↦ Fragment.Loose c ∧ c ≠ ';'

/-- The inside of a block: braces are balanced, and neither braces nor quotation marks are
escaped. -/
def IsBlock : Run → Prop :=
  Over (('\x7b', '\x7d') :: Fragment.brackets) Fragment.Unbraced Fragment.Unbraced

end Run

/-! ### Sheets -/

def Prelude := {e : Run // e.IsPiece}

/-- A value, perhaps with a mark of importance, whose exclamation mark is not escaped. -/
def Value := {e : Run // e.IsPiece ∧ '!' ∉ e.escaped}

def Inside := {e : Run // e.IsBlock}

/-- A name, a colon and a value. -/
structure Declaration where
  name : Piece
  value : Value
  named : ':' ∉ name.val.content

/-- A part of a style rule's body: a declaration before a semicolon, or a nested rule. -/
inductive BodyItem
  | declaration (d : Declaration)
  | rule (prelude : Prelude) (block : Inside)

/-- The end of a style rule's body: a declaration that no semicolon ends, or nothing. -/
inductive BodyEnd
  | declaration (d : Declaration)
  | nothing (trivia : Trivia)

/-- A style rule. -/
structure StyleRule where
  prelude : Prelude
  body : List BodyItem
  last : BodyEnd
  isStyle : ((prelude.val.fragment false).content.dropWhile Text.isSpace).head? ≠ some '@'

/-- An item of a sheet; the prelude of the first two stands behind `@`. -/
inductive Item
  | statement (prelude : Prelude)
  | atRule (prelude : Prelude) (block : Inside)
  | style (rule : StyleRule)

/-- Items, each behind whitespace and comments, and what stands behind the last one. -/
structure Sheet where
  items : List (Trivia × Item)
  after : Trivia

section

variable (replace : Bool)

def Declaration.source (d : Declaration) : Fragment :=
  d.name.val.append (.char ':' (d.value.val.fragment replace))

def BodyItem.source : BodyItem → Fragment
  | .declaration d => (d.source replace).append (.char ';' .nil)
  | .rule prelude block => blockSource (prelude.val.fragment replace) (block.val.fragment replace)

def BodyEnd.source : BodyEnd → Fragment
  | .declaration d => d.source replace
  | .nothing trivia => trivia.val

/-- The inside of a style rule's block. -/
def StyleRule.inside (r : StyleRule) : Fragment :=
  r.body.foldr (fun item rest ↦ (item.source replace).append rest) (r.last.source replace)

def Item.source : Item → Fragment
  | .statement prelude => .char '@' ((prelude.val.fragment replace).append (.char ';' .nil))
  | .atRule prelude block =>
    .char '@' (blockSource (prelude.val.fragment replace) (block.val.fragment replace))
  | .style rule => blockSource (rule.prelude.val.fragment replace) (rule.inside replace)

/-- The sheet as a fragment, with or without letters in the place of the marked escapes. -/
def Sheet.source (s : Sheet) : Fragment :=
  s.items.foldr (fun item rest ↦ item.1.val.append ((item.2.source replace).append rest))
    s.after.val

def Sheet.text (s : Sheet) : String := String.ofList (s.source replace).text

end

/-! ### Outlines -/

/-- The name of a declaration and whether it is important. -/
def outline (d : WrittenDeclaration) : String × Bool := (d.property, d.important)

/-- The outline of the declaration that a piece of a block holds. -/
def outlined? (piece : List Char) : Option (String × Bool) :=
  (Written.declaration? piece).map outline

/-- The name without comments and the whitespace around it, lowered unless it is a custom one, and
whether the value ends in a mark of importance. A blank name declares nothing. -/
def Declaration.outline? (d : Declaration) : Option (String × Bool) :=
  let name := trimChars d.name.val.content
  if name = [] then none
  else
    some (if ['-', '-'] <+: name then String.ofList name else lower (String.ofList name),
      decide (EndsImportant (d.value.val.fragment false).content))

def BodyItem.outline? : BodyItem → Option (String × Bool)
  | .declaration d => d.outline?
  | .rule _ _ => none

def BodyEnd.outline? : BodyEnd → Option (String × Bool)
  | .declaration d => d.outline?
  | .nothing _ => none

/-- The outlines of what a style rule declares itself, in order. -/
def StyleRule.outlines (r : StyleRule) : List (String × Bool) :=
  r.body.filterMap BodyItem.outline? ++ r.last.outline?.toList

/-- The style rule that an item is. -/
def Item.style? : Item → Option StyleRule
  | .style rule => some rule
  | _ => none

/-- The outlines of what each style rule declares, in order. -/
def Sheet.outlines (s : Sheet) : List (List (String × Bool)) :=
  (s.items.filterMap fun item ↦ item.2.style?).map StyleRule.outlines

/-! ### Runs as fragments -/

namespace Run

variable {replace : Bool} {pairs : List (Char × Char)} {inner outer : Char → Prop} {e : Run}
  {c : Char}

private theorem head?_fragment (h : (e.fragment replace).text.head? = some c) (hc : c ≠ 'x') :
    (e.fragment false).text.head? = some c := by
  cases e with
  | escape d marked rest =>
    rw [fragment] at h
    split at h
    · exact absurd (Option.some.inj h).symm hc
    · exact h
  | escapedPair opening closing marked inside rest =>
    rw [fragment] at h
    split at h
    · exact absurd (Option.some.inj h).symm hc
    · exact h
  | _ => exact h

/-- Where characters outside groups may stand in groups too, and backslashes and letters may stand
anywhere, either spelling of a run is a fragment over the same characters. -/
theorem Over.fragment (replace : Bool) (h : e.Over pairs inner outer)
    (hpairs : Fragment.brackets ⊆ pairs) (hinner : ∀ c, outer c → inner c)
    (hslash : outer '\\') (hletter : outer 'x') :
    (e.fragment replace).Over pairs inner outer := by
  have hletters {f : Fragment} {outer : Char → Prop} (hletter : outer 'x')
      (hf : f.Over pairs inner outer) :
      (Fragment.char 'x' (.char 'x' f)).Over pairs inner outer :=
    ⟨hletter, fun h ↦ absurd h (by decide), hletter, fun h ↦ absurd h (by decide), hf⟩
  induction e generalizing outer with
  | nil => trivial
  | char c rest ih =>
    obtain ⟨hc, hstar, hrest⟩ := h
    exact ⟨hc, fun h hhead ↦ hstar h (head?_fragment hhead (by decide)),
      ih hrest hinner hslash hletter⟩
  | escape c marked rest ih =>
    obtain ⟨hc, hstar, hrest⟩ := h
    have hf := ih hrest hinner hslash hletter
    rw [Run.fragment]
    split
    · exact hletters hletter hf
    · exact ⟨hslash, fun h ↦ absurd h (by decide), hc,
        fun h hhead ↦ hstar h (head?_fragment hhead (by decide)), hf⟩
  | escapedPair opening closing marked inside rest ih₁ ih₂ =>
    obtain ⟨hpair, hinside, hrest⟩ := h
    have hf := ih₁ hinside hinner hslash hletter
    have hg := ih₂ hrest hinner hslash hletter
    rw [Run.fragment]
    split
    · exact hletters hletter (hf.append (hletters hletter hg) fun _ ↦ by simp [Fragment.text])
    · have hbehind : (Fragment.char '\\' .nil).Over pairs inner outer :=
        ⟨hslash, fun h ↦ absurd h (by decide), trivial⟩
      have hgroup := hf.append hbehind fun _ ↦ by simp [Fragment.text]
      exact ⟨hslash, fun h ↦ absurd h (by decide), hpairs hpair,
        hgroup.mono (List.Subset.refl _) (fun _ h ↦ h) hinner, hg⟩
  | string quote inside rest ih =>
    obtain ⟨hquote, hinside, hrest⟩ := h
    exact ⟨hquote, hinside, ih hrest hinner hslash hletter⟩
  | comment inside rest ih =>
    obtain ⟨hinside, hrest⟩ := h
    exact ⟨hinside, ih hrest hinner hslash hletter⟩
  | group opening closing inside rest ih₁ ih₂ =>
    obtain ⟨hpair, hinside, hrest⟩ := h
    exact ⟨hpair, ih₁ hinside (fun _ h ↦ h) (hinner _ hslash) (hinner _ hletter),
      ih₂ hrest hinner hslash hletter⟩

theorem IsPiece.isLoose (h : e.IsPiece) : (e.fragment replace).IsLoose :=
  h.fragment replace (List.Subset.refl _) (fun _ hc ↦ hc.1) (by decide) (by decide)

theorem IsBlock.isBlock (h : e.IsBlock) : (e.fragment replace).IsBlock :=
  h.fragment replace (List.subset_cons_self _ _) (fun _ hc ↦ hc) (by decide) (by decide)

end Run

/-! ### Contents -/

/-- A text in which two letters may stand for backslashes with one of the characters `P`. -/
inductive Respelled (P : Char → Prop) : List Char → List Char → Prop
  | nil : Respelled P [] []
  | same {ws rs : List Char} (c : Char) (rest : Respelled P ws rs) : Respelled P (c :: ws) (c :: rs)
  | letters {ws rs : List Char} {c : Char} (hc : P c) (rest : Respelled P ws rs) :
      Respelled P ('\\' :: c :: ws) ('x' :: 'x' :: rs)

namespace Respelled

variable {P : Char → Prop} {ws rs ws' rs' t b : List Char} {c : Char}

theorem append (h : Respelled P ws rs) (h' : Respelled P ws' rs') :
    Respelled P (ws ++ ws') (rs ++ rs') := by
  induction h with
  | nil => exact h'
  | same c _ ih => exact .same c ih
  | letters hc _ ih => exact .letters hc ih

theorem same_append (cs : List Char) (h : Respelled P ws rs) :
    Respelled P (cs ++ ws) (cs ++ rs) := by
  induction cs with
  | nil => exact h
  | cons c cs ih => exact .same c ih

/-- Without backslashes nothing is respelled. -/
private theorem eq_of_written (h : Respelled P ws rs) (hws : '\\' ∉ ws) : rs = ws := by
  induction h with
  | nil => rfl
  | same c _ ih => rw [ih (List.not_mem_of_not_mem_cons hws)]
  | letters => exact absurd List.mem_cons_self hws

private theorem eq_of_replaced (h : Respelled P ws rs) (hrs : 'x' ∉ rs) : ws = rs := by
  induction h with
  | nil => rfl
  | same c _ ih => rw [ih (List.not_mem_of_not_mem_cons hrs)]
  | letters => exact absurd List.mem_cons_self hrs

/-- What stands behind a character that is not escaped is there in the other spelling too. -/
private theorem exists_replaced (h : Respelled P ws rs) (hws : ws = b ++ c :: t) (hc : ¬ P c)
    (ht : '\\' ∉ c :: t) : ∃ b', rs = b' ++ c :: t := by
  induction h generalizing b with
  | nil => exact absurd hws (by simp)
  | @same ws rs d rest ih =>
    cases b with
    | nil =>
      obtain ⟨rfl, rfl⟩ := List.cons.inj hws
      exact ⟨[], congrArg (d :: ·) (rest.eq_of_written (List.not_mem_of_not_mem_cons ht))⟩
    | cons d' b =>
      obtain ⟨b', rfl⟩ := ih (List.cons.inj hws).2
      exact ⟨d :: b', rfl⟩
  | @letters ws rs d hd rest ih =>
    -- `b` ends before the backslash, between it and the escaped character, or behind both.
    match b, hws with
    | [], hws =>
      rw [← (List.cons.inj hws).1] at ht
      exact absurd List.mem_cons_self ht
    | [_], hws =>
      rw [(List.cons.inj (List.cons.inj hws).2).1] at hd
      exact absurd hd hc
    | _ :: _ :: b, hws =>
      obtain ⟨b', rfl⟩ := ih (List.cons.inj (List.cons.inj hws).2).2
      exact ⟨'x' :: 'x' :: b', rfl⟩

private theorem exists_written (h : Respelled P ws rs) (hrs : rs = b ++ t) (ht : 'x' ∉ t) :
    ∃ b', ws = b' ++ t := by
  induction h generalizing b with
  | nil => exact ⟨[], List.append_eq_nil_iff.mp hrs.symm |>.2.symm⟩
  | @same ws rs d rest ih =>
    cases b with
    | nil =>
      obtain rfl : t = d :: rs := hrs.symm
      exact ⟨[], congrArg (d :: ·) (rest.eq_of_replaced (List.not_mem_of_not_mem_cons ht))⟩
    | cons d' b =>
      obtain ⟨b', rfl⟩ := ih (List.cons.inj hrs).2
      exact ⟨d :: b', rfl⟩
  | @letters ws rs d hd rest ih =>
    match b, hrs with
    | [], hrs =>
      obtain rfl : t = 'x' :: 'x' :: rs := hrs.symm
      exact absurd List.mem_cons_self ht
    | [_], hrs =>
      obtain rfl : t = 'x' :: rs := (List.cons.inj hrs).2.symm
      exact absurd List.mem_cons_self ht
    | _ :: _ :: b, hrs =>
      obtain ⟨b', rfl⟩ := ih (List.cons.inj (List.cons.inj hrs).2).2
      exact ⟨'\\' :: d :: b', rfl⟩

private theorem not_mem_mark {gap word after : List Char} (hgap : ∀ c ∈ gap, isSpace c)
    (hword : IsImportant word) (hafter : ∀ c ∈ after, isSpace c) (hbang : c ≠ '!')
    (hspace : ¬ isSpace c) (hletter : c.toLower ∉ "important".toList) :
    c ∉ '!' :: (gap ++ word ++ after) := by
  have hmem : c ∉ word := by
    intro hc
    rw [← Written.map_toLower_of_isImportant hword] at hletter
    exact hletter (List.mem_map_of_mem hc)
  simp only [List.mem_cons, List.mem_append, not_or]
  exact ⟨hbang, ⟨fun hc ↦ hspace (hgap c hc), hmem⟩, fun hc ↦ hspace (hafter c hc)⟩

/-- Letters in the place of escapes neither add a mark of importance nor take one away, unless an
exclamation mark is escaped. -/
theorem endsImportant_iff (h : Respelled P ws rs) (hbang : ¬ P '!') :
    EndsImportant ws ↔ EndsImportant rs := by
  constructor
  · rintro ⟨before, gap, word, after, hws, hgap, hword, hafter⟩
    have hslash : '\\' ∉ '!' :: (gap ++ word ++ after) :=
      not_mem_mark hgap hword hafter (by decide) (by decide) (by decide)
    obtain ⟨before', hrs⟩ := h.exists_replaced hws hbang hslash
    exact ⟨before', gap, word, after, hrs, hgap, hword, hafter⟩
  · rintro ⟨before, gap, word, after, hrs, hgap, hword, hafter⟩
    have hletter : 'x' ∉ '!' :: (gap ++ word ++ after) :=
      not_mem_mark hgap hword hafter (by decide) (by decide) (by decide)
    obtain ⟨before', hws⟩ := h.exists_written hrs hletter
    exact ⟨before', gap, word, after, hws, hgap, hword, hafter⟩

/-- The first character behind white space is an at sign in both spellings or in none. -/
theorem head?_dropWhile_iff (h : Respelled P ws rs) :
    (ws.dropWhile isSpace).head? = some '@' ↔ (rs.dropWhile isSpace).head? = some '@' := by
  induction h with
  | nil => rfl
  | same c _ ih =>
    by_cases hspace : isSpace c
    · rwa [List.dropWhile_cons_of_pos hspace, List.dropWhile_cons_of_pos hspace]
    · rw [List.dropWhile_cons_of_neg hspace, List.dropWhile_cons_of_neg hspace]
      rfl
  | letters =>
    rw [List.dropWhile_cons_of_neg (by decide), List.dropWhile_cons_of_neg (by decide)]
    simp

end Respelled

theorem Run.respelled_content {P : Char → Prop} {e : Run} (he : ∀ c ∈ e.escaped, P c) :
    Respelled P (e.fragment false).content (e.fragment true).content := by
  induction e with
  | nil => exact .nil
  | char c rest ih => exact .same c (ih he)
  | escape c marked rest ih =>
    obtain ⟨hc, hrest⟩ := List.forall_mem_cons.mp he
    cases marked with
    | false => exact .same '\\' (.same c (ih hrest))
    | true => exact .letters hc (ih hrest)
  | escapedPair opening closing marked inside rest ih₁ ih₂ =>
    obtain ⟨hopening, hbehind⟩ := List.forall_mem_cons.mp he
    obtain ⟨hinside, hbehind⟩ := List.forall_mem_append.mp hbehind
    obtain ⟨hclosing, hrest⟩ := List.forall_mem_cons.mp hbehind
    cases marked with
    | false =>
      have h : Respelled P _ _ := .same '\\' (.same opening
        ((ih₁ hinside).append (.same '\\' (.same closing (ih₂ hrest)))))
      simpa [Run.fragment, Fragment.content, Fragment.content_append] using h
    | true =>
      have h : Respelled P _ _ :=
        .letters hopening ((ih₁ hinside).append (.letters hclosing (ih₂ hrest)))
      simpa [Run.fragment, Fragment.content, Fragment.content_append] using h
  | string quote inside rest ih =>
    exact .same quote (.same_append inside (.same quote (ih he)))
  | comment inside rest ih => exact ih he
  | group opening closing inside rest ih₁ ih₂ =>
    obtain ⟨hinside, hrest⟩ := List.forall_mem_append.mp he
    exact .same opening ((ih₁ hinside).append (.same closing (ih₂ hrest)))

/-! ### Declarations -/

namespace Declaration

variable (replace : Bool)

theorem isLoose_source (d : Declaration) : (d.source replace).IsLoose := by
  have hbehind : (Fragment.char ':' (d.value.val.fragment replace)).IsLoose :=
    ⟨by decide, fun h ↦ absurd h (by decide), d.value.2.1.isLoose⟩
  exact Fragment.Over.append d.name.2.isLoose hbehind fun _ ↦ by simp [Fragment.text]

/-- Either spelling of the value ends in a mark of importance or none does. -/
private theorem endsImportant_iff (d : Declaration) :
    EndsImportant (d.value.val.fragment replace).content ↔
      EndsImportant (d.value.val.fragment false).content := by
  have hrespelled : Respelled (· ≠ '!') (d.value.val.fragment false).content
      (d.value.val.fragment true).content := by
    refine Run.respelled_content ?_
    rintro c hc rfl
    exact d.value.2.2 hc
  cases replace with
  | false => rfl
  | true => exact (hrespelled.endsImportant_iff (not_not_intro rfl)).symm

/-- The outline of a declaration is read off either spelling. -/
theorem outlined?_source (d : Declaration) : outlined? (d.source replace).text = d.outline? := by
  have hcontent : (d.source replace).content =
      d.name.val.content ++ ':' :: (d.value.val.fragment replace).content := by
    rw [source, Fragment.content_append, Fragment.content]
  have hmark : decide (EndsImportant (d.value.val.fragment false).content) =
      (Written.withoutImportance (trimChars (d.value.val.fragment replace).content)).isSome := by
    rw [Bool.eq_iff_iff, decide_eq_true_iff, Written.isSome_withoutImportance_iff]
    exact (d.endsImportant_iff replace).symm
  rw [outlined?, Written.declaration?_split (d.isLoose_source replace).isBlock hcontent d.named,
    outline?, Written.foldName_eq, hmark]
  dsimp only
  split
  · rfl
  · cases Written.withoutImportance (trimChars (d.value.val.fragment replace).content) <;> rfl

end Declaration

/-! ### Bodies of style rules -/

variable (replace : Bool)

theorem BodyItem.isBlock_source (item : BodyItem) : (item.source replace).IsBlock := by
  cases item with
  | declaration d => exact isBlock_semicolon (d.isLoose_source replace)
  | rule prelude block => exact isBlock_blockSource prelude.2.isLoose block.2.isBlock

private theorem BodyItem.getLast?_source (item : BodyItem) :
    (item.source replace).text.getLast? ≠ some '/' := by
  cases item <;>
    simp [BodyItem.source, blockSource, Fragment.text_append, Fragment.text, List.getLast?_cons]

theorem BodyEnd.isBlock_source (last : BodyEnd) : (last.source replace).IsBlock := by
  cases last with
  | declaration d => exact (d.isLoose_source replace).isBlock
  | nothing trivia => exact trivia.2.1.isBlock

theorem StyleRule.isBlock_inside (r : StyleRule) : (r.inside replace).IsBlock :=
  isBlock_foldr (BodyItem.isBlock_source replace) (BodyItem.getLast?_source replace)
    (r.last.isBlock_source replace) r.body

open Written

private theorem filterMap_pieces_item (item : BodyItem) (place : Nat) (rest : List Char) :
    ∃ place', (pieces ⟨place, (item.source replace).text ++ rest⟩).filterMap outlined? =
      item.outline?.toList ++ (pieces ⟨place', rest⟩).filterMap outlined? := by
  cases item with
  | declaration d =>
    have hpieces := filterMap_pieces_semicolon outlined? place rest (d.isLoose_source replace)
    rwa [d.outlined?_source] at hpieces
  | rule prelude block =>
    exact filterMap_pieces_rule _ place rest prelude.2.isLoose block.2.isBlock

private theorem filterMap_pieces_last (last : BodyEnd) (place : Nat) :
    (pieces ⟨place, (last.source replace).text⟩).filterMap outlined? = last.outline?.toList := by
  cases last with
  | declaration d =>
    have hpieces := filterMap_pieces_end outlined? (d.isLoose_source replace) place
    rwa [d.outlined?_source] at hpieces
  | nothing trivia =>
    have hpieces := filterMap_pieces_end outlined? trivia.2.1.isLoose place
    rwa [outlined?, declaration?_blank trivia.2.1 trivia.2.2] at hpieces

/-- In either spelling of a body the outlines of its rule are found. -/
theorem map_outline_declarations (r : StyleRule) :
    (declarations (r.inside replace).text).map outline = r.outlines := by
  rw [declarations, List.map_filterMap]
  exact filterMap_pieces_foldr (filterMap_pieces_item replace)
    (filterMap_pieces_last replace r.last) r.body 0

/-! ### Sheets -/

private theorem StyleRule.not_at (r : StyleRule) :
    ((r.prelude.val.fragment replace).content.dropWhile isSpace).head? ≠ some '@' := by
  have hrespelled : Respelled (fun _ ↦ True) (r.prelude.val.fragment false).content
      (r.prelude.val.fragment true).content := Run.respelled_content fun _ _ ↦ trivial
  cases replace with
  | false => exact r.isStyle
  | true => exact fun hat ↦ r.isStyle (hrespelled.head?_dropWhile_iff.mpr hat)

private theorem bodies_item (trivia : Trivia) (item : Item) (place : Nat) (rest : List Char) :
    ∃ place',
      (bodies ⟨place, trivia.val.text ++ ((item.source replace).text ++ rest)⟩).map Prod.snd =
        (item.style?.map fun r ↦ (r.inside replace).text).toList ++
          (bodies ⟨place', rest⟩).map Prod.snd := by
  cases item with
  | statement prelude =>
    obtain ⟨place', hbodies⟩ := bodies_statement trivia prelude.2.isLoose place rest
    exact ⟨place', congrArg (List.map Prod.snd) hbodies⟩
  | atRule prelude block =>
    obtain ⟨place', hbodies⟩ :=
      bodies_atRule trivia prelude.2.isLoose block.2.isBlock place rest
    exact ⟨place', congrArg (List.map Prod.snd) hbodies⟩
  | style rule =>
    obtain ⟨body, place', hbodies⟩ := bodies_rule trivia rule.prelude.2.isLoose
      (rule.not_at replace) (rule.isBlock_inside replace) place rest
    exact ⟨place', congrArg (List.map Prod.snd) hbodies⟩

/-- In either spelling of a sheet the outlines of its style rules are found. -/
theorem map_outline_styleBlocks (s : Sheet) :
    (styleBlocks (s.text replace)).map (List.map outline) = s.outlines := by
  have hbodies : (bodies ⟨0, (s.source replace).text⟩).map Prod.snd =
      s.items.filterMap fun item ↦ item.2.style?.map fun r ↦ (r.inside replace).text :=
    map_bodies_foldr (bodies_item replace) s.after s.items 0
  rw [← List.map_filterMap] at hbodies
  calc (styleBlocks (s.text replace)).map (List.map outline)
      = ((bodies ⟨0, (s.source replace).text⟩).map Prod.snd).map
          fun body ↦ (declarations body).map outline := by
        rw [styleBlocks, Sheet.text, String.toList_ofList, List.map_map, List.map_map]
        rfl
    _ = s.outlines := by
        rw [hbodies, List.map_map]
        exact List.map_congr_left fun r _ ↦ map_outline_declarations replace r

end Source.Escaped

namespace Written

open Source.Escaped

/-- Letters may stand for escapes in the preludes and values of a sheet: as many blocks are found in
it, with the same names and the same marks of importance, and these are the sheet's own. -/
theorem styleBlocks_escapes (s : Escaped.Sheet) :
    (styleBlocks (s.text true)).map (List.map outline) =
        (styleBlocks (s.text false)).map (List.map outline) ∧
      (styleBlocks (s.text false)).map (List.map outline) = s.outlines := by
  rw [map_outline_styleBlocks, map_outline_styleBlocks]
  exact ⟨rfl, rfl⟩

/-- Brackets behind backslashes in a prelude, and a colon in a value. -/
theorem styleBlocks_escaped_brackets :
    (styleBlocks ".wxx1xx\x7ba:bxx!important\x7d").map (List.map outline) =
        (styleBlocks ".w\\[1\\]\x7ba:b\\:!important\x7d").map (List.map outline) ∧
      (styleBlocks ".w\\[1\\]\x7ba:b\\:!important\x7d").map (List.map outline) =
        [[("a", true)]] := by
  let blank : Trivia := ⟨.nil, trivial, nofun⟩
  let prelude : Prelude :=
    ⟨.char '.' (.char 'w' (.escapedPair '[' ']' true (.char '1' .nil) .nil)), by
      simp +decide [Run.IsPiece, Run.Over]⟩
  let value : Value :=
    ⟨.char 'b' (.escape ':' true ("!important".toList.foldr .char .nil)), by
      simp +decide [Run.IsPiece, Run.Over]⟩
  let name : Piece := ⟨.char 'a' .nil, by simp +decide [Fragment.IsPiece, Fragment.Over]⟩
  let rule : Escaped.StyleRule := ⟨prelude, [], .declaration ⟨name, value, by decide⟩, by decide⟩
  let s : Escaped.Sheet := ⟨[(blank, .style rule)], blank⟩
  have hwritten : s.text false = ".w\\[1\\]\x7ba:b\\:!important\x7d" := by decide +kernel
  have hreplaced : s.text true = ".wxx1xx\x7ba:bxx!important\x7d" := by decide +kernel
  have houtlines : s.outlines = [[("a", true)]] := by decide +kernel
  rw [← hwritten, ← hreplaced, ← houtlines]
  exact styleBlocks_escapes s

/-- A brace behind a backslash opens a block all the same, and a quotation mark begins a string. -/
theorem styleBlocks_escaped_brace :
    styleBlocks ".a\\\x7bb\x7bc:d\x7d" = [[]] ∧
      styleBlocks ".axxb\x7bc:d\x7d" = [[⟨"c", "d", false⟩]] ∧
      styleBlocks ".a\\[\\'b\\'\\]\x7bc:d\x7d" = [] ∧
      styleBlocks ".axxxxbxxxx\x7bc:d\x7d" = [[⟨"c", "d", false⟩]] := by
  decide +kernel

end Written

end StyleCheck.Style
