import Mathlib.Data.List.DropRight
import StyleCheck.Proofs.Selector.Grammar
import StyleCheck.Proofs.Style.Scanning

/-!
# Declarations recovered from their source

The scanner finds in a sheet what was written into it: one block for each style rule at the top
level, in order, with the declarations of that rule alone. Main statement: the blocks found in the
text of a sheet are those that the sheet itself says it holds.
-/

namespace StyleCheck.Style

open Source Text

variable {cs ds ws : List Char} {c : Char} {place : Nat}

/-! ### Whitespace at the ends -/

theorem dropRightWhile_append_of_forall {p : Char → Bool} (h : ∀ c ∈ ws, p c) :
    dropRightWhile p (cs ++ ws) = dropRightWhile p cs := by
  have hreverse : ∀ c ∈ ws.reverse, p c := fun c hc ↦ h c (List.mem_reverse.mp hc)
  rw [dropRightWhile, List.reverse_append, List.dropWhile_append_of_pos hreverse, dropRightWhile]

theorem exists_dropRightWhile (p : Char → Bool) (cs : List Char) :
    ∃ ws, cs = dropRightWhile p cs ++ ws ∧ ∀ c ∈ ws, p c := by
  refine ⟨(cs.reverse.takeWhile p).reverse, ?_, ?_⟩
  · rw [dropRightWhile, ← List.reverse_append, List.takeWhile_append_dropWhile,
      List.reverse_reverse]
  · intro c hc
    exact List.mem_takeWhile_imp (List.mem_reverse.mp hc)

/-- A text is what is left without the whitespace at its ends, and that whitespace. -/
theorem exists_trimChars (cs : List Char) :
    ∃ ws ws', cs = ws ++ trimChars cs ++ ws' ∧ (∀ c ∈ ws, isSpace c) ∧ ∀ c ∈ ws', isSpace c := by
  obtain ⟨ws', h, hws'⟩ := exists_dropRightWhile isSpace (cs.dropWhile isSpace)
  refine ⟨cs.takeWhile isSpace, ws', ?_, fun c hc ↦ List.mem_takeWhile_imp hc, hws'⟩
  rw [List.append_assoc, trimChars, ← h, List.takeWhile_append_dropWhile]

private theorem dropWhile_append_cons {p : Char → Bool} (h : ¬ p c) :
    (cs ++ c :: ds).dropWhile p = cs.dropWhile p ++ c :: ds := by
  rw [List.dropWhile_append]
  split
  · next hempty => rw [List.dropWhile_cons_of_neg h, List.isEmpty_iff.mp hempty, List.nil_append]
  · rfl

theorem trimChars_of_forall_not (h : ∀ c ∈ cs, ¬ isSpace c) : trimChars cs = cs := by
  have hdrop : cs.dropWhile isSpace = cs := by
    cases cs with
    | nil => rfl
    | cons c cs => rw [List.dropWhile_cons_of_neg (h c List.mem_cons_self)]
  rw [trimChars, hdrop]
  exact List.rdropWhile_eq_self_iff.mpr fun hne ↦ h _ (List.getLast_mem hne)

namespace Written

/-! ### Names and values apart -/

theorem splitAtFirst_append (h : c ∉ cs) : splitAtFirst c (cs ++ c :: ds) = some (cs, ds) := by
  have hne : ∀ d ∈ cs, (d != c) = true := by
    intro d hd
    rw [bne_iff_ne]
    rintro rfl
    exact h hd
  have hdrop : (cs ++ c :: ds).dropWhile (· != c) = c :: ds := by
    rw [List.dropWhile_append_of_pos hne, List.dropWhile_cons_of_neg (by simp)]
  have htake : (cs ++ c :: ds).takeWhile (· != c) = cs := by
    rw [List.takeWhile_append_of_pos hne, List.takeWhile_cons_of_neg (by simp), List.append_nil]
  rw [splitAtFirst, hdrop]
  dsimp only
  rw [htake]

theorem splitAtFirst_eq_none (h : c ∉ cs) : splitAtFirst c cs = none := by
  have hdrop : cs.dropWhile (· != c) = [] := by
    rw [List.dropWhile_eq_nil_iff]
    intro d hd
    rw [bne_iff_ne]
    rintro rfl
    exact h hd
  rw [splitAtFirst, hdrop]

theorem splitAtLast_append (h : c ∉ ds) : splitAtLast c (cs ++ c :: ds) = some (cs, ds) := by
  have hreverse : (cs ++ c :: ds).reverse = ds.reverse ++ c :: cs.reverse := by simp
  rw [splitAtLast, hreverse, splitAtFirst_append (by simpa using h)]
  simp

private theorem eq_of_splitAtFirst {before after : List Char}
    (h : splitAtFirst c cs = some (before, after)) : cs = before ++ c :: after := by
  unfold splitAtFirst at h
  split at h
  · cases h
  · next d rest hdrop =>
    cases h
    have hne : cs.dropWhile (· != c) ≠ [] := by
      rw [hdrop]
      exact List.cons_ne_nil _ _
    have hd : d = c := by
      have hhead := List.head_dropWhile_not (· != c) hne
      simpa [hdrop] using hhead
    have hcs := List.takeWhile_append_dropWhile (p := (· != c)) (l := cs)
    rw [hdrop, hd] at hcs
    exact hcs.symm

/-- A text that is split at a character is put together from the parts. -/
theorem eq_of_splitAtLast {before after : List Char}
    (h : splitAtLast c cs = some (before, after)) : cs = before ++ c :: after := by
  rw [splitAtLast, Option.map_eq_some_iff] at h
  obtain ⟨⟨after', before'⟩, hsplit, hparts⟩ := h
  cases hparts
  have hreverse := congrArg List.reverse (eq_of_splitAtFirst hsplit)
  simpa using hreverse

/-! ### Marks of importance -/

private theorem isAlpha_of_isAlpha_toLower (h : c.toLower.isAlpha) : c.isAlpha := by
  by_cases hupper : c.isUpper
  · show (c.isUpper || c.isLower) = true
    rw [hupper, Bool.true_or]
  · have hlower : c.toLower = c := dif_neg fun hcapital ↦ hupper (decide_eq_true hcapital)
    rwa [hlower] at h

theorem map_toLower_of_isImportant {word : List Char} (h : IsImportant word) :
    word.map Char.toLower = "important".toList := by
  have hlist := congrArg String.toList h
  rwa [lower, String.toList_ofList, String.toList_ofList] at hlist

theorem isAlpha_of_isImportant {word : List Char} (h : IsImportant word) :
    (∀ c ∈ word, c.isAlpha) ∧ word ≠ [] := by
  have hlower := map_toLower_of_isImportant h
  constructor
  · intro c hc
    have hmem : c.toLower ∈ "important".toList := hlower ▸ List.mem_map_of_mem hc
    have hletters : "important".toList.all Char.isAlpha := by decide
    exact isAlpha_of_isAlpha_toLower (List.all_eq_true.mp hletters _ hmem)
  · rintro rfl
    cases hlower

theorem not_isSpace_of_isAlpha (h : c.isAlpha) : ¬ isSpace c := by
  intro hspace
  have hn := Selector.Grammar.toNat_of_isSpace hspace
  rw [Selector.Grammar.isAlpha_iff] at h
  omega

/-- A mark behind a value is taken off. -/
theorem withoutImportance_marked {value gap word after : List Char}
    (hgap : ∀ c ∈ gap, isSpace c) (hword : IsImportant word) (hafter : ∀ c ∈ after, isSpace c) :
    withoutImportance (trimChars (value ++ '!' :: (gap ++ word ++ after))) =
      some (trimChars value) := by
  obtain ⟨hletters, hne⟩ := isAlpha_of_isImportant hword
  have hspace : ∀ c ∈ word, ¬ isSpace c := fun c hc ↦ not_isSpace_of_isAlpha (hletters c hc)
  have hflag : trimChars (gap ++ word) = word := by
    rw [trimChars, List.dropWhile_append_of_pos hgap, ← trimChars, trimChars_of_forall_not hspace]
  -- The mark ends in the word, and the whitespace behind it goes.
  have htrim : trimChars (value ++ '!' :: (gap ++ word ++ after)) =
      value.dropWhile isSpace ++ '!' :: (gap ++ word) := by
    rw [trimChars, dropWhile_append_cons (by decide), ← List.cons_append, ← List.append_assoc,
      dropRightWhile_append_of_forall hafter]
    refine List.rdropWhile_eq_self_iff.mpr fun hl ↦ ?_
    rw [List.getLast_append_of_ne_nil _ (List.cons_ne_nil _ _),
      List.getLast_cons (List.append_ne_nil_of_right_ne_nil gap hne),
      List.getLast_append_of_ne_nil _ hne]
    exact hspace _ (List.getLast_mem hne)
  have hbang : '!' ∉ gap ++ word := by
    intro hmem
    rcases List.mem_append.mp hmem with hmem | hmem
    · exact absurd (hgap _ hmem) (by decide)
    · exact absurd (hletters _ hmem) (by decide)
  have hsame : sameIgnoringCase (String.ofList word) "important" := by
    rw [sameIgnoringCase, hword]
    decide
  rw [htrim, withoutImportance, splitAtLast_append hbang]
  dsimp only
  rw [hflag, if_pos hsame]
  rfl

/-- A value without a mark is left as it is. -/
theorem withoutImportance_unmarked {value : List Char} (h : ¬ EndsImportant value) :
    withoutImportance (trimChars value) = none := by
  rw [withoutImportance]
  split
  · rfl
  · next before flag hsplit =>
    rw [if_neg]
    intro hsame
    obtain ⟨ws, ws', hvalue, -, hws'⟩ := exists_trimChars value
    obtain ⟨gap, after, hflag, hgap, hafter⟩ := exists_trimChars flag
    refine h ⟨ws ++ before, gap, trimChars flag, after ++ ws', ?_, hgap, ?_, ?_⟩
    · rw [eq_of_splitAtLast hsplit] at hvalue
      rw [hvalue]
      conv => lhs; rw [hflag]
      simp
    · have hlower : lower "important" = "important" := by decide
      rw [sameIgnoringCase, hlower, beq_iff_eq] at hsame
      exact hsame
    · intro c hc
      rcases List.mem_append.mp hc with hc | hc
      · exact hafter c hc
      · exact hws' c hc

/-- A mark is taken off exactly if the value ends in one. -/
theorem isSome_withoutImportance_iff {value : List Char} :
    (withoutImportance (trimChars value)).isSome ↔ EndsImportant value := by
  constructor
  · intro hsome
    by_contra hends
    rw [withoutImportance_unmarked hends] at hsome
    cases hsome
  · rintro ⟨before, gap, word, after, rfl, hgap, hword, hafter⟩
    rw [withoutImportance_marked hgap hword hafter]
    rfl

instance (value : List Char) : Decidable (EndsImportant value) :=
  decidable_of_iff _ isSome_withoutImportance_iff

end Written

/-! ### Declarations -/

private theorem ordinary_of_isAlpha (h : c.isAlpha) :
    (Fragment.Ordinary c ∧ c ≠ ';') ∧ c ≠ '/' := by
  have hne (d : Char) (hd : d.isAlpha = false) : c ≠ d := by
    rintro rfl
    rw [h] at hd
    cases hd
  refine ⟨⟨⟨⟨?_, hne _ rfl, hne _ rfl⟩, ?_⟩, hne _ rfl⟩, hne _ rfl⟩
  · simp only [Scanner.isQuote, Bool.or_eq_true, beq_iff_eq, not_or]
    exact ⟨hne _ rfl, hne _ rfl⟩
  · simp only [List.mem_cons, List.not_mem_nil, or_false, not_or]
    exact ⟨hne _ rfl, hne _ rfl, hne _ rfl, hne _ rfl, hne _ rfl⟩

private theorem head?_ne_of_blank {f : Fragment} (hf : f.IsPiece)
    (hblank : ∀ c ∈ f.content, isSpace c) : f.text.head? ≠ some '*' := by
  cases f with
  | nil => simp [Fragment.text]
  | char c f =>
    rintro ⟨⟩
    exact absurd (hblank '*' List.mem_cons_self) (by decide)
  | string quote inside f =>
    rintro ⟨⟩
    cases hf.1
  | comment inside f => simp [Fragment.text]
  | group opening closing inside f =>
    rintro ⟨⟩
    exact absurd (hblank '*' List.mem_cons_self) (by decide)

namespace Source

theorem Mark.isPiece_source (m : Mark) : m.source.IsPiece := by
  obtain ⟨⟨before, hbefore, hspaces⟩, word, ⟨after, hafter, hspaces'⟩, hword⟩ := m
  obtain ⟨hletters, hne⟩ := Written.isAlpha_of_isImportant hword
  have hofChars : (Fragment.ofChars word).IsPiece :=
    Fragment.over_ofChars fun c hc ↦ ordinary_of_isAlpha (hletters c hc)
  have hseam : ((Fragment.ofChars word).append after).text.head? ≠ some '*' := by
    rw [Fragment.text_append, Fragment.text_ofChars]
    cases word with
    | nil => exact absurd rfl hne
    | cons c word =>
      rintro ⟨⟩
      exact absurd (hletters '*' List.mem_cons_self) (by decide)
  have hmarked := hofChars.append hafter fun _ ↦ head?_ne_of_blank hafter hspaces'
  exact .char (by decide) (hbefore.append hmarked fun _ ↦ hseam)

/-- A declaration is a piece. -/
theorem Declaration.isPiece_source (d : Declaration) : d.source.IsPiece := by
  have hvalue : (d.value.val.append (d.mark.elim .nil Mark.source)).IsPiece := by
    cases d.mark with
    | none => exact Fragment.Over.append d.value.2 trivial fun _ ↦ by simp [Fragment.text]
    | some m =>
      refine Fragment.Over.append d.value.2 m.isPiece_source fun _ ↦ ?_
      simp [Mark.source, Fragment.text]
  have hbehind : (Fragment.char ':' _).IsPiece := .char (by decide) hvalue
  exact Fragment.Over.append d.name.2 hbehind fun _ ↦ by simp [Fragment.text]

/-- A prelude and its block make a block. -/
theorem isBlock_blockSource {prelude block : Fragment} (hprelude : prelude.IsLoose)
    (hblock : block.IsBlock) : (blockSource prelude block).IsBlock :=
  hprelude.isBlock.append ⟨List.mem_cons_self, hblock, trivial⟩ fun _ ↦ by simp [Fragment.text]

/-- A piece and the semicolon behind it make a block. -/
theorem isBlock_semicolon {f : Fragment} (hf : f.IsLoose) :
    (f.append (.char ';' .nil)).IsBlock :=
  hf.isBlock.append ⟨by decide, fun h ↦ absurd h (by decide), trivial⟩
    fun _ ↦ by simp [Fragment.text]

/-- Braces are balanced in parts one after the other, where no comment opens at a seam. -/
theorem isBlock_foldr {ι : Type} {source : ι → Fragment} {last : Fragment}
    (hsource : ∀ i, (source i).IsBlock) (hslash : ∀ i, (source i).text.getLast? ≠ some '/')
    (hlast : last.IsBlock) (parts : List ι) :
    (parts.foldr (fun i rest ↦ (source i).append rest) last).IsBlock := by
  induction parts with
  | nil => exact hlast
  | cons i parts ih => exact (hsource i).append ih fun h ↦ absurd h (hslash i)

theorem BodyItem.isBlock_source (item : BodyItem) : item.source.IsBlock := by
  cases item with
  | declaration d => exact isBlock_semicolon d.isPiece_source.isLoose
  | rule prelude block => exact isBlock_blockSource prelude.2.isLoose block.2

/-- No comment opens behind a part of a body. -/
private theorem BodyItem.getLast?_source (item : BodyItem) :
    item.source.text.getLast? ≠ some '/' := by
  cases item <;>
    simp [BodyItem.source, blockSource, Fragment.text_append, Fragment.text, List.getLast?_cons]

theorem BodyEnd.isBlock_source (last : BodyEnd) : last.source.IsBlock := by
  cases last with
  | declaration d => exact d.isPiece_source.isBlock
  | nothing trivia => exact trivia.2.1.isBlock

/-- Braces are balanced in a body. -/
theorem StyleRule.isBlock_inside (r : StyleRule) : r.inside.IsBlock :=
  isBlock_foldr BodyItem.isBlock_source BodyItem.getLast?_source r.last.isBlock_source r.body

end Source

namespace Written

theorem foldName_eq (name : List Char) :
    foldName (String.ofList name) =
      if ['-', '-'] <+: name then String.ofList name else lower (String.ofList name) := by
  rw [foldName, String.toList_ofList]
  simp only [List.isPrefixOf_iff_prefix]

/-- A declaration is read at the first colon outside its comments. -/
theorem declaration?_split {f : Fragment} {name value : List Char} (hf : f.IsBlock)
    (hcontent : f.content = name ++ ':' :: value) (hname : ':' ∉ name) :
    declaration? f.text =
      if trimChars name = [] then none
      else
        let property := foldName (String.ofList (trimChars name))
        match withoutImportance (trimChars value) with
        | some before => some ⟨property, String.ofList before, true⟩
        | none => some ⟨property, String.ofList (trimChars value), false⟩ := by
  have hsplit : withoutComments (.ofChars f.text) = name ++ ':' :: value :=
    (withoutComments_block hf).trans hcontent
  rw [declaration?, hsplit, splitAtFirst_append hname]
  dsimp only
  by_cases hblank : trimChars name = []
  · exact (if_pos (List.isEmpty_iff.mpr hblank)).trans (if_pos hblank).symm
  · exact (if_neg (mt List.isEmpty_iff.mp hblank)).trans (if_neg hblank).symm

/-- What the text of a declaration declares is recovered from it. -/
theorem declaration?_source (d : Source.Declaration) : declaration? d.source.text = d.written? := by
  have hcontent : d.source.content = d.name.val.content ++ ':' :: (d.value.val.content ++
      (d.mark.elim .nil Mark.source).content) := by
    rw [Declaration.source, Fragment.content_append, Fragment.content, Fragment.content_append]
  rw [declaration?_split d.isPiece_source.isBlock hcontent d.named, Declaration.written?,
    foldName_eq]
  cases hmark : d.mark with
  | none =>
    have hvalue := withoutImportance_unmarked (d.unmarked hmark)
    rw [Option.elim_none, Fragment.content, List.append_nil, hvalue]
    rfl
  | some m =>
    have hcontent : m.source.content =
        '!' :: (m.before.val.content ++ m.word ++ m.after.val.content) := by
      rw [Mark.source, Fragment.content, Fragment.content_append, Fragment.content_append,
        Fragment.content_ofChars, List.append_assoc]
    rw [Option.elim_some, hcontent, withoutImportance_marked m.before.2.2 m.important m.after.2.2]
    rfl

/-- Whitespace and comments declare nothing. -/
theorem declaration?_blank {f : Fragment} (hf : f.IsPiece) (hblank : ∀ c ∈ f.content, isSpace c) :
    declaration? f.text = none := by
  have hcontent : withoutComments (.ofChars f.text) = f.content :=
    withoutComments_block hf.isBlock
  have hcolon : ':' ∉ f.content := fun hmem ↦ absurd (hblank _ hmem) (by decide)
  rw [declaration?, hcontent, splitAtFirst_eq_none hcolon]

/-! ### Bodies of style rules -/

section

open Scanner

variable {rest : List Char} {f : Fragment}

private theorem text_blockSource (f block : Fragment) :
    (blockSource f block).text ++ rest = f.text ++ '\x7b' :: (block.text ++ '\x7d' :: rest) := by
  simp [blockSource, Fragment.text_append, Fragment.text]

/-- Behind a piece, the search for its end finds it. -/
private theorem findTopLevel_item {stop : Char} (place : Nat) (rest : List Char)
    (hf : f.IsLoose) (hstop : stop ∈ [';', '\x7b']) :
    findTopLevel [';', '\x7b'] 0 ⟨place, f.text ++ stop :: rest⟩ =
      (some stop, ⟨place + byteLength f.text + 1, rest⟩) :=
  findTopLevel_stop hf hstop fun c hc ↦ by simpa using hc

private theorem pieces_stop {s past : Scanner} {stop : Char}
    (hfind : s.findTopLevel [';', '\x7b'] 0 = (some stop, past)) :
    pieces s =
      if stop = ';' then s.upTo (past.place - 1) :: pieces past else pieces past.skipBlock.2 := by
  rw [pieces]
  split
  · next h =>
    rw [hfind] at h
    cases h
  · next h =>
    rw [hfind] at h
    cases h
    rfl

variable {α : Type} (read : List Char → Option α)

/-- A piece before a semicolon is read, and the scanner goes on behind it. -/
theorem filterMap_pieces_semicolon (place : Nat) (rest : List Char) (hf : f.IsLoose) :
    ∃ place', (pieces ⟨place, (f.append (.char ';' .nil)).text ++ rest⟩).filterMap read =
      (read f.text).toList ++ (pieces ⟨place', rest⟩).filterMap read := by
  have htext : (f.append (.char ';' .nil)).text ++ rest = f.text ++ ';' :: rest := by
    simp [Fragment.text_append, Fragment.text]
  refine ⟨place + byteLength f.text + 1, ?_⟩
  rw [htext, pieces_stop (findTopLevel_item place rest hf List.mem_cons_self), if_pos rfl,
    Nat.add_sub_cancel, upTo_append, List.filterMap_cons]
  cases read f.text <;> rfl

/-- A nested rule is passed over. -/
theorem filterMap_pieces_rule {block : Fragment} (place : Nat) (rest : List Char) (hf : f.IsLoose)
    (hblock : block.IsBlock) :
    ∃ place', (pieces ⟨place, (blockSource f block).text ++ rest⟩).filterMap read =
      (pieces ⟨place', rest⟩).filterMap read := by
  have hfind := findTopLevel_item place (block.text ++ '\x7d' :: rest) hf
    (List.mem_cons_of_mem ';' List.mem_cons_self)
  rw [text_blockSource, pieces_stop hfind, if_neg (by decide), skipBlock_block hblock]
  exact ⟨_, rfl⟩

/-- What no semicolon ends is the last piece. -/
theorem filterMap_pieces_end (hf : f.IsLoose) (place : Nat) :
    (pieces ⟨place, f.text⟩).filterMap read = (read f.text).toList := by
  have hend : (findTopLevel [';', '\x7b'] 0 ⟨place, f.text⟩).1 = none :=
    findTopLevel_end hf fun c hc ↦ by simpa using hc
  have hpieces : pieces ⟨place, f.text⟩ = [f.text] := by
    rw [pieces]
    split
    · rfl
    · next h =>
      rw [h] at hend
      cases hend
  rw [hpieces, List.filterMap_cons]
  cases read f.text <;> rfl

variable {read}

/-- What is read from parts one after the other is what is read from each, in order. -/
theorem filterMap_pieces_foldr {ι : Type} {source : ι → Fragment} {last : Fragment}
    {found : ι → Option α} {foundLast : Option α}
    (hsource : ∀ i place rest, ∃ place',
      (pieces ⟨place, (source i).text ++ rest⟩).filterMap read =
        (found i).toList ++ (pieces ⟨place', rest⟩).filterMap read)
    (hlast : ∀ place, (pieces ⟨place, last.text⟩).filterMap read = foundLast.toList)
    (parts : List ι) (place : Nat) :
    (pieces ⟨place, (parts.foldr (fun i rest ↦ (source i).append rest) last).text⟩).filterMap read =
      parts.filterMap found ++ foundLast.toList := by
  -- The pieces of the parts still to come are the same at every place.
  induction parts generalizing place with
  | nil => exact hlast place
  | cons i parts ih =>
    obtain ⟨place', hi⟩ := hsource i place
      (parts.foldr (fun i rest ↦ (source i).append rest) last).text
    rw [List.foldr_cons, Fragment.text_append, hi, ih place', List.filterMap_cons,
      ← List.append_assoc]
    cases found i <;> rfl

private theorem filterMap_pieces_item (item : BodyItem) (place : Nat) (rest : List Char) :
    ∃ place', (pieces ⟨place, item.source.text ++ rest⟩).filterMap declaration? =
      item.written?.toList ++ (pieces ⟨place', rest⟩).filterMap declaration? := by
  cases item with
  | declaration d =>
    have hpieces := filterMap_pieces_semicolon declaration? place rest d.isPiece_source.isLoose
    rwa [declaration?_source] at hpieces
  | rule prelude block => exact filterMap_pieces_rule _ place rest prelude.2.isLoose block.2

private theorem filterMap_pieces_last (last : BodyEnd) (place : Nat) :
    (pieces ⟨place, last.source.text⟩).filterMap declaration? = last.written?.toList := by
  cases last with
  | declaration d =>
    have hpieces := filterMap_pieces_end declaration? d.isPiece_source.isLoose place
    rwa [declaration?_source] at hpieces
  | nothing trivia =>
    have hpieces := filterMap_pieces_end declaration? trivia.2.1.isLoose place
    rwa [declaration?_blank trivia.2.1 trivia.2.2] at hpieces

/-- A body holds what its rule declares. -/
theorem declarations_inside (r : StyleRule) : declarations r.inside.text = r.declared :=
  filterMap_pieces_foldr filterMap_pieces_item (filterMap_pieces_last r.last) r.body 0

end

/-! ### Sheets -/

section

open Scanner

variable {s start past : Scanner} {stop : Char}

private theorem bodies_nil (hskip : s.skipTrivia.rest = []) : bodies s = [] := by
  rw [bodies]
  split
  · rfl
  · next h =>
    rw [hskip] at h
    cases h

private theorem bodies_at (hskip : s.skipTrivia = start) (hat : start.rest.head? = some '@')
    (hfind : start.findTopLevel [';', '\x7b'] 0 = (some stop, past)) :
    bodies s = if stop = '\x7b' then bodies past.skipBlock.2 else bodies past := by
  rw [bodies]
  split
  · next h =>
    rw [hskip] at h
    rw [h] at hat
    cases hat
  · next h =>
    rw [hskip] at h
    rw [h] at hat
    cases hat
    rw [if_pos rfl]
    split
    · next h =>
      rw [hskip, hfind] at h
      cases h
    · next h =>
      rw [hskip, hfind] at h
      cases h
      rfl

private theorem bodies_style (hskip : s.skipTrivia = start) (hstyle : start.rest.head? ≠ some '@')
    (hfind : start.findTopLevel ['\x7b'] 0 = (some stop, past)) :
    bodies s = (past.place, past.upTo past.skipBlock.1) :: bodies past.skipBlock.2 := by
  rw [bodies]
  split
  · next h =>
    have hlt := length_findTopLevel_lt hfind
    rw [← hskip, h] at hlt
    cases hlt
  · next h =>
    rw [hskip] at h
    rw [h] at hstyle
    rw [if_neg fun heq ↦ hstyle (congrArg some heq)]
    split
    · next h =>
      rw [hskip, hfind] at h
      cases h
    · next h =>
      rw [hskip, hfind] at h
      cases h
      rfl

private theorem skipTrivia_trivia (trivia : Trivia) (place : Nat) (rest : List Char) :
    skipTrivia ⟨place, trivia.val.text ++ rest⟩ =
      skipTrivia ⟨place + byteLength trivia.val.text, rest⟩ :=
  skipTrivia_blank trivia.2.1 trivia.2.2 place

variable {prelude block : Fragment}

/-- Behind the prelude of an at-rule its end is found, and the scanner goes on from there. -/
private theorem bodies_prelude (trivia : Trivia) (hprelude : prelude.IsLoose) (place : Nat)
    (rest : List Char) (hstop : stop ∈ [';', '\x7b']) :
    ∃ place', bodies ⟨place, trivia.val.text ++ '@' :: (prelude.text ++ stop :: rest)⟩ =
      if stop = '\x7b' then bodies (skipBlock ⟨place', rest⟩).2 else bodies ⟨place', rest⟩ := by
  have hloose : (Fragment.char '@' prelude).IsLoose :=
    ⟨by decide, fun h ↦ absurd h (by decide), hprelude⟩
  have hskip : skipTrivia ⟨place, trivia.val.text ++ '@' :: (prelude.text ++ stop :: rest)⟩ =
      ⟨place + byteLength trivia.val.text, '@' :: (prelude.text ++ stop :: rest)⟩ := by
    rw [skipTrivia_trivia]
    exact skipTrivia_other (by decide) (by simp [opensComment])
  exact ⟨_, bodies_at hskip rfl (findTopLevel_item _ rest hloose hstop)⟩

/-- An at-rule that a semicolon ends is passed over. -/
theorem bodies_statement (trivia : Trivia) (hprelude : prelude.IsLoose) (place : Nat)
    (rest : List Char) :
    ∃ place', bodies ⟨place, trivia.val.text ++
      ((Fragment.char '@' (prelude.append (.char ';' .nil))).text ++ rest)⟩ =
        bodies ⟨place', rest⟩ := by
  have htext : (Fragment.char '@' (prelude.append (.char ';' .nil))).text ++ rest =
      '@' :: (prelude.text ++ ';' :: rest) := by
    simp [Fragment.text_append, Fragment.text]
  obtain ⟨place', hbodies⟩ := bodies_prelude trivia hprelude place rest List.mem_cons_self
  rw [htext, hbodies]
  exact ⟨place', rfl⟩

/-- An at-rule with a block is passed over. -/
theorem bodies_atRule (trivia : Trivia) (hprelude : prelude.IsLoose) (hblock : block.IsBlock)
    (place : Nat) (rest : List Char) :
    ∃ place', bodies ⟨place, trivia.val.text ++
      ((Fragment.char '@' (blockSource prelude block)).text ++ rest)⟩ = bodies ⟨place', rest⟩ := by
  obtain ⟨place', hbodies⟩ := bodies_prelude trivia hprelude place
    (block.text ++ '\x7d' :: rest) (List.mem_cons_of_mem ';' List.mem_cons_self)
  rw [Fragment.text, List.cons_append, text_blockSource, hbodies, if_pos rfl,
    skipBlock_block hblock]
  exact ⟨_, rfl⟩

/-- The body of a style rule is found, and the scanner goes on behind its block. -/
theorem bodies_rule (trivia : Trivia) (hprelude : prelude.IsLoose)
    (hat : (prelude.content.dropWhile isSpace).head? ≠ some '@') (hblock : block.IsBlock)
    (place : Nat) (rest : List Char) :
    ∃ body place', bodies ⟨place, trivia.val.text ++ ((blockSource prelude block).text ++ rest)⟩ =
      (body, block.text) :: bodies ⟨place', rest⟩ := by
  obtain ⟨place', g, hg, hat, hskip⟩ := skipTrivia_piece (place + byteLength trivia.val.text)
    hprelude hat (block.text ++ '\x7d' :: rest)
  have hstyle : (g.text ++ '\x7b' :: (block.text ++ '\x7d' :: rest)).head? ≠ some '@' := by
    cases hg : g.text with
    | nil => simp
    | cons c cs => rwa [hg] at hat
  have hfind : findTopLevel ['\x7b'] 0
      ⟨place', g.text ++ '\x7b' :: (block.text ++ '\x7d' :: rest)⟩ =
        (some '\x7b', ⟨place' + byteLength g.text + 1, block.text ++ '\x7d' :: rest⟩) :=
    findTopLevel_stop hg (List.mem_singleton_self _) fun c hc ↦ .inr (List.mem_singleton.mp hc)
  rw [text_blockSource, bodies_style ((skipTrivia_trivia trivia place _).trans hskip) hstyle hfind,
    skipBlock_block hblock, upTo_append]
  exact ⟨_, _, rfl⟩

/-- The bodies found in items one after the other are those found in each, in order. -/
theorem map_bodies_foldr {ι : Type} {source : ι → Fragment} {found : ι → Option (List Char)}
    (hsource : ∀ (trivia : Trivia) i place rest, ∃ place',
      (bodies ⟨place, trivia.val.text ++ ((source i).text ++ rest)⟩).map Prod.snd =
        (found i).toList ++ (bodies ⟨place', rest⟩).map Prod.snd)
    (after : Trivia) (items : List (Trivia × ι)) (place : Nat) :
    (bodies ⟨place, (items.foldr (fun i rest ↦ i.1.val.append ((source i.2).append rest))
      after.val).text⟩).map Prod.snd = items.filterMap fun i ↦ found i.2 := by
  induction items generalizing place with
  | nil =>
    have hskip := skipTrivia_trivia after place []
    rw [List.append_nil] at hskip
    rw [List.foldr_nil, bodies_nil (by rw [hskip, skipTrivia])]
    rfl
  | cons i items ih =>
    obtain ⟨place', hi⟩ := hsource i.1 i.2 place
      (items.foldr (fun i rest ↦ i.1.val.append ((source i.2).append rest)) after.val).text
    rw [List.foldr_cons, Fragment.text_append, Fragment.text_append, hi, ih place',
      List.filterMap_cons]
    cases found i.2 <;> rfl

private theorem bodies_item (trivia : Trivia) (item : Item) (place : Nat) (rest : List Char) :
    ∃ place', (bodies ⟨place, trivia.val.text ++ (item.source.text ++ rest)⟩).map Prod.snd =
      (item.style?.map fun r ↦ r.inside.text).toList ++ (bodies ⟨place', rest⟩).map Prod.snd := by
  cases item with
  | statement prelude =>
    obtain ⟨place', hbodies⟩ := bodies_statement trivia prelude.2.isLoose place rest
    exact ⟨place', congrArg (List.map Prod.snd) hbodies⟩
  | atRule prelude block =>
    obtain ⟨place', hbodies⟩ := bodies_atRule trivia prelude.2.isLoose block.2 place rest
    exact ⟨place', congrArg (List.map Prod.snd) hbodies⟩
  | style rule =>
    obtain ⟨body, place', hbodies⟩ :=
      bodies_rule trivia rule.prelude.2.isLoose rule.isStyle rule.isBlock_inside place rest
    exact ⟨place', congrArg (List.map Prod.snd) hbodies⟩

/-- The bodies found in a sheet are those of its style rules. -/
theorem map_bodies_source (sheet : Sheet) :
    (bodies ⟨0, sheet.source.text⟩).map Prod.snd =
      (sheet.items.filterMap fun item ↦ item.2.style?).map fun r ↦ r.inside.text := by
  rw [List.map_filterMap]
  exact map_bodies_foldr bodies_item sheet.after sheet.items 0

/-- The scanner recovers from the text of a sheet what its style rules declare. -/
theorem styleBlocks_text (sheet : Sheet) : styleBlocks sheet.text = sheet.blocks := by
  rw [styleBlocks, Sheet.text, String.toList_ofList]
  calc (bodies (.ofChars sheet.source.text)).map (fun body ↦ declarations body.2)
      = ((bodies ⟨0, sheet.source.text⟩).map Prod.snd).map declarations := by
        rw [List.map_map]
        rfl
    _ = ((sheet.items.filterMap fun item ↦ item.2.style?).map fun r ↦ r.inside.text).map
          declarations := by rw [map_bodies_source]
    _ = sheet.blocks := by
        rw [List.map_map]
        exact List.map_congr_left fun r _ ↦ declarations_inside r

/-- A statement, an at-rule around a rule, and a style rule that holds a comment, a string, a mark
of importance, a nested rule and a custom property. -/
def mixedSheet : Sheet :=
  let piece (cs : List Char) (h : cs.all fun c ↦ (Fragment.Ordinary c ∧ c ≠ ';') ∧ c ≠ '/') :
      Piece := ⟨.ofChars cs, Fragment.over_ofChars (by simpa using h)⟩
  let block (cs : List Char) (h : cs.all fun c ↦ Fragment.Unbraced c ∧ c ≠ '/') : Block :=
    ⟨.ofChars cs, Fragment.over_ofChars (by simpa using h)⟩
  let blank : Trivia := ⟨.nil, trivial, List.forall_mem_nil _⟩
  let space : Trivia := ⟨.char ' ' .nil, by
    simp +decide [Fragment.IsPiece, Fragment.Over], List.forall_mem_singleton.mpr rfl⟩
  let statement : Piece := ⟨"import ".toList.foldr .char (.string '\'' ['a'] .nil), by
    simp +decide [Fragment.IsPiece, Fragment.Over, Quoted.plain _ _ Quoted.nil]⟩
  let nested : Block := ⟨.char 'c' (.group '\x7b' '\x7d' (.ofChars "d:e".toList) .nil), by
    simp +decide [Fragment.IsBlock, Fragment.Over, Fragment.ofChars]⟩
  let name : Piece := ⟨.comment ['g'] (.char 'H' .nil), by
    simp +decide [Fragment.IsPiece, Fragment.Over]⟩
  let value : Piece := ⟨.string '"' [';'] (.char ' ' .nil), by
    simp +decide [Fragment.IsPiece, Fragment.Over, Quoted.plain _ _ Quoted.nil]⟩
  let group : Piece := ⟨.group '(' ')' (.ofChars "m;n".toList) .nil, by
    simp +decide [Fragment.IsPiece, Fragment.Over, Fragment.ofChars, Fragment.brackets]⟩
  let marked : Source.Declaration :=
    ⟨name, value, some ⟨blank, "important".toList, blank, rfl⟩, by decide, nofun⟩
  let custom : Source.Declaration :=
    ⟨piece "--L".toList (by decide), group, none, by decide, by decide⟩
  let inner : BodyItem := .rule (piece ['i'] (by decide)) (block "j:k".toList (by decide))
  let rule : Source.StyleRule :=
    ⟨piece ['f'] (by decide), [.declaration marked, inner], .declaration custom, by decide⟩
  ⟨[(blank, .statement statement),
    (blank, .atRule (piece "media b".toList (by decide)) nested), (space, .style rule)], blank⟩

/-- At-rules and a nested rule declare nothing, and a semicolon in a string or in a group ends no
declaration. -/
theorem styleBlocks_text_mixedSheet :
    let css := "@import 'a';@media b\x7bc\x7bd:e\x7d\x7d f\x7b/*g*/H:\";\" !important;" ++
      "i\x7bj:k\x7d--L:(m;n)\x7d"
    let blocks : List (List WrittenDeclaration) :=
      [[⟨"h", "\";\"", true⟩, ⟨"--L", "(m;n)", false⟩]]
    mixedSheet.text = css ∧ mixedSheet.blocks = blocks ∧ styleBlocks css = blocks := by
  intro css blocks
  have htext : mixedSheet.text = css := by decide +kernel
  have hblocks : mixedSheet.blocks = blocks := by decide +kernel
  have hfound := styleBlocks_text mixedSheet
  rw [htext, hblocks] at hfound
  exact ⟨htext, hblocks, hfound⟩

end

end Written

end StyleCheck.Style
