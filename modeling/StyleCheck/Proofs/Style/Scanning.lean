import StyleCheck.Proofs.Style.Source
import StyleCheck.Text.Bytes

/-!
# Scanning fragments

Every loop of the scanner passes over a fragment as a whole: none stops in it, and none takes what
stands in a string, a comment or a group for anything else.
-/

namespace StyleCheck.Style

open Source Text

/-! ### Bytes -/

theorem byteLength_append (cs ds : List Char) :
    byteLength (cs ++ ds) = byteLength cs + byteLength ds := by
  induction cs with
  | nil => exact (Nat.zero_add _).symm
  | cons c cs ih =>
    rw [List.cons_append, byteLength, byteLength, ih]
    omega

/-- Brackets are neither quotation marks nor braces. -/
theorem Source.Fragment.unbraced_of_mem_brackets {pair : Char × Char}
    (h : pair ∈ Fragment.brackets) : Fragment.Unbraced pair.1 ∧ Fragment.Unbraced pair.2 := by
  simp only [Fragment.brackets, List.mem_cons, List.not_mem_nil, or_false] at h
  rcases h with rfl | rfl <;> decide

namespace Scanner

variable {place depth : Nat} {quote c : Char} {inside rest stops cs : List Char}

theorem takeBytes_byteLength (cs rest : List Char) :
    takeBytes (byteLength cs) (cs ++ rest) = cs := by
  induction cs with
  | nil =>
    cases rest with
    | nil => rfl
    | cons c rest =>
      have hpos := c.utf8Size_pos
      rw [List.nil_append, takeBytes, byteLength, if_neg (by omega)]
  | cons c cs ih =>
    rw [List.cons_append, takeBytes, byteLength, if_pos (Nat.le_add_right _ _),
      Nat.add_sub_cancel_left, ih]

/-- The text up to the end of a part of it is that part. -/
theorem upTo_append (place : Nat) (cs rest : List Char) :
    upTo ⟨place, cs ++ rest⟩ (place + byteLength cs) = cs := by
  rw [upTo, Nat.add_sub_cancel_left, takeBytes_byteLength]

/-! ### Comments and strings -/

theorem opensComment_iff : opensComment c rest ↔ c = '/' ∧ rest.head? = some '*' := by
  simp [opensComment]

private theorem closeComment_cons (h : c = '*' → rest.head? ≠ some '/') :
    closeComment place (c :: rest) = closeComment (place + c.utf8Size) rest := by
  rw [closeComment.eq_def]
  split
  · next heq => cases heq
  · next heq =>
    cases heq
    exact absurd rfl (h rfl)
  · next heq =>
    cases heq
    rfl

theorem closeComment_append (h : ¬ ['*', '/'] <:+: inside) :
    closeComment place (inside ++ '*' :: '/' :: rest) =
      ⟨place + byteLength inside + 2, rest⟩ := by
  induction inside generalizing place with
  | nil => rfl
  | cons c inside ih =>
    have hinside : ¬ ['*', '/'] <:+: inside := fun hinfix ↦ h (List.infix_cons hinfix)
    have hstar : c = '*' → (inside ++ '*' :: '/' :: rest).head? ≠ some '/' := by
      rintro rfl hhead
      cases inside with
      | nil => cases hhead
      | cons d inside =>
        cases hhead
        exact h ⟨[], inside, rfl⟩
    rw [List.cons_append, closeComment_cons hstar, ih hinside, byteLength]
    congr 1
    omega

/-- A comment whose `/` has been read ends at its end. -/
theorem skipComment_append (h : ¬ ['*', '/'] <:+: inside) :
    skipComment ⟨place, '*' :: (inside ++ '*' :: '/' :: rest)⟩ =
      ⟨place + byteLength ('*' :: (inside ++ ['*', '/'])), rest⟩ := by
  have hbytes : byteLength ('*' :: (inside ++ ['*', '/'])) = 1 + byteLength inside + 2 := by
    rw [byteLength, byteLength_append, Nat.add_assoc]
    rfl
  rw [skipComment, bump, closeComment_append h, hbytes, ← Nat.add_assoc, ← Nat.add_assoc]
  rfl

theorem ne_backslash_of_isQuote (h : isQuote quote) : quote ≠ '\\' := by
  rintro rfl
  cases h

private theorem closeString_cons (h : c ≠ '\\') :
    closeString quote place (c :: rest) =
      if c = quote then ⟨place + c.utf8Size, rest⟩
      else closeString quote (place + c.utf8Size) rest := by
  rw [closeString.eq_def]
  split
  · next heq => cases heq
  · next heq =>
    cases heq
    exact absurd rfl h
  · next heq =>
    cases heq
    exact absurd rfl h
  · next heq =>
    cases heq
    rfl

/-- A string whose opening quote has been read ends at its closing quote. -/
theorem skipString_append (hquote : isQuote quote) (h : Quoted quote inside) :
    skipString ⟨place, inside ++ quote :: rest⟩ quote =
      ⟨place + byteLength (inside ++ [quote]), rest⟩ := by
  rw [skipString]
  dsimp only
  induction h generalizing place with
  | nil =>
    rw [List.nil_append, closeString_cons (ne_backslash_of_isQuote hquote), if_pos rfl]
    rfl
  | @escaped c cs _ ih =>
    rw [List.cons_append, List.cons_append, closeString, ih, List.cons_append, List.cons_append,
      byteLength, byteLength, ← Nat.add_assoc, ← Nat.add_assoc]
    rfl
  | @plain c cs differs bare _ ih =>
    rw [List.cons_append, closeString_cons bare, if_neg differs, ih, List.cons_append, byteLength,
      Nat.add_assoc]

/-! ### Loops -/

/-- Before `cs` a loop puts out `shown` and does what another does behind it; `rest` follows. -/
def Passes {α : Type} (out : List Char → α → α) (loop loop' : Scanner → α)
    (cs shown rest : List Char) : Prop :=
  ∀ place, loop ⟨place, cs ++ rest⟩ = out shown (loop' ⟨place + byteLength cs, rest⟩)

/-- A loop at some depth of nesting that takes comments and strings as a whole. -/
structure Loop {α : Type} (out : List Char → α → α) (loop : Nat → Scanner → α) : Prop where
  out_nil : ∀ a, out [] a = a
  out_append : ∀ cs ds a, out (cs ++ ds) a = out cs (out ds a)
  comment : ∀ depth place rest, opensComment '/' rest →
    loop depth ⟨place, '/' :: rest⟩ = loop depth (skipComment ⟨place + 1, rest⟩)
  string : ∀ depth quote inside rest, isQuote quote → Quoted quote inside →
    Passes out (loop depth) (loop depth) (quote :: (inside ++ [quote]))
      (quote :: (inside ++ [quote])) rest

/-- A loop takes one character, unless a comment opens with it. -/
def Takes {α : Type} (out : List Char → α → α) (loop loop' : Scanner → α) (c : Char) : Prop :=
  ∀ rest, ¬ opensComment c rest → Passes out loop loop' [c] [c] rest

private theorem not_opensComment (hcs : c = '/' → cs.head? ≠ some '*')
    (hrest : rest.head? ≠ some '*') : ¬ opensComment c (cs ++ rest) := by
  rw [opensComment_iff]
  rintro ⟨hc, hhead⟩
  cases cs with
  | nil => exact hrest hhead
  | cons d cs => exact hcs hc hhead

private theorem not_opensComment_of_ne (hc : c ≠ '/') : ¬ opensComment c rest :=
  fun h ↦ hc (opensComment_iff.mp h).1

private theorem ne_slash_of_isQuote (h : isQuote quote) : quote ≠ '/' := by
  rintro rfl
  cases h

section

variable {α : Type} {out : List Char → α → α} {loop : Nat → Scanner → α}
  {l l' l'' : Scanner → α} {ds shown shown' : List Char} {pairs : List (Char × Char)}
  {inner outer : Char → Prop} {f : Fragment}

private theorem passes_trans (hout : ∀ cs ds a, out (cs ++ ds) a = out cs (out ds a))
    (h : Passes out l l' cs shown (ds ++ rest)) (h' : Passes out l' l'' ds shown' rest) :
    Passes out l l'' (cs ++ ds) (shown ++ shown') rest := by
  intro place
  rw [List.append_assoc, h, h', hout, byteLength_append, Nat.add_assoc]

private theorem passes_comment (hout : ∀ a, out [] a = a)
    (h : ∀ place rest, opensComment '/' rest →
      l ⟨place, '/' :: rest⟩ = l (skipComment ⟨place + 1, rest⟩))
    (hinside : ¬ ['*', '/'] <:+: inside) :
    Passes out l l ('/' :: '*' :: (inside ++ ['*', '/'])) [] rest := by
  intro place
  have htext : '/' :: '*' :: (inside ++ ['*', '/']) ++ rest =
      '/' :: '*' :: (inside ++ '*' :: '/' :: rest) := by simp
  rw [htext, h _ _ rfl, skipComment_append hinside, hout, Nat.add_assoc]
  rfl

/-- A loop passes over a fragment whose characters it takes outside groups, and in groups at the
depth to which their opening character leads. -/
theorem Loop.passes_over (hl : Loop out loop) (depth : Nat) (hf : f.Over pairs inner outer)
    (houter : ∀ c, outer c → Takes out (loop depth) (loop depth) c)
    (hpairs : ∀ depth, ∀ pair ∈ pairs, ∃ depth', Takes out (loop depth) (loop depth') pair.1 ∧
      (∀ c, inner c → Takes out (loop depth') (loop depth') c) ∧
        Takes out (loop depth') (loop depth) pair.2)
    (hne : ∀ pair ∈ pairs, pair.1 ≠ '/' ∧ pair.2 ≠ '/' ∧ pair.2 ≠ '*')
    (hrest : rest.head? ≠ some '*') :
    Passes out (loop depth) (loop depth) f.text f.content rest := by
  induction f generalizing outer depth rest with
  | nil => exact fun place ↦ (hl.out_nil _).symm
  | char c f ih =>
    obtain ⟨hc, hslash, hf⟩ := hf
    have hstep := houter c hc _ (not_opensComment hslash hrest)
    exact passes_trans hl.out_append hstep (ih _ hf houter hrest)
  | string quote inside f ih =>
    obtain ⟨hquote, hinside, hf⟩ := hf
    have hstep := hl.string depth quote inside (f.text ++ rest) hquote hinside
    have h := passes_trans hl.out_append hstep (ih _ hf houter hrest)
    simpa [Fragment.text, Fragment.content] using h
  | comment inside f ih =>
    obtain ⟨hinside, hf⟩ := hf
    have h := passes_trans hl.out_append (passes_comment hl.out_nil (hl.comment depth) hinside)
      (ih _ hf houter hrest)
    simpa [Fragment.text, Fragment.content] using h
  | group opening closing inside f ih₁ ih₂ =>
    obtain ⟨hpair, hinside, hf⟩ := hf
    obtain ⟨hopening, hclosing, hstar⟩ := hne _ hpair
    obtain ⟨depth', hdown, hinner, hup⟩ := hpairs depth _ hpair
    have hbehind : Passes out (loop depth') (loop depth) (closing :: f.text)
        (closing :: f.content) rest :=
      passes_trans hl.out_append (hup _ (not_opensComment_of_ne hclosing)) (ih₂ _ hf houter hrest)
    have hstar : (closing :: f.text ++ rest).head? ≠ some '*' := by simpa using hstar
    have h := passes_trans hl.out_append (hdown _ (not_opensComment_of_ne hopening))
      (passes_trans hl.out_append (ih₁ _ hinside hinner hstar) hbehind)
    simpa [Fragment.text, Fragment.content] using h

/-- The search for something puts out nothing on its way. -/
def silent {α : Type} (_shown : List Char) (a : α) : α := a

private theorem silent_string {l : Scanner → α} (hquote : isQuote quote)
    (hinside : Quoted quote inside) (h : ∀ place rest,
      l ⟨place, quote :: rest⟩ = l (skipString ⟨place + quote.utf8Size, rest⟩ quote)) :
    Passes silent l l (quote :: (inside ++ [quote])) shown rest := by
  intro place
  have htext : quote :: (inside ++ [quote]) ++ rest = quote :: (inside ++ quote :: rest) := by simp
  rw [htext, h, skipString_append hquote hinside, Nat.add_assoc]
  rfl

end

/-! ### The search for a stop -/

private theorem findTopLevel_cons :
    findTopLevel stops depth ⟨place, c :: rest⟩ =
      if opensComment c rest then
        findTopLevel stops depth (skipComment ⟨place + c.utf8Size, rest⟩)
      else if isQuote c then findTopLevel stops depth (skipString ⟨place + c.utf8Size, rest⟩ c)
      else if c = '(' ∨ c = '[' then findTopLevel stops (depth + 1) ⟨place + c.utf8Size, rest⟩
      else if c = ')' ∨ c = ']' then findTopLevel stops (depth - 1) ⟨place + c.utf8Size, rest⟩
      else if depth = 0 ∧ c ∈ stops then (some c, ⟨place + c.utf8Size, rest⟩)
      else findTopLevel stops depth ⟨place + c.utf8Size, rest⟩ := by
  rw [findTopLevel]

private theorem loop_findTopLevel (stops : List Char) : Loop silent (findTopLevel stops) where
  out_nil _ := rfl
  out_append _ _ _ := rfl
  comment depth place rest hopens := by
    rw [findTopLevel_cons, if_pos hopens]
    rfl
  string depth quote inside rest hquote hinside := by
    refine silent_string hquote hinside fun place rest ↦ ?_
    rw [findTopLevel_cons, if_neg (not_opensComment_of_ne (ne_slash_of_isQuote hquote)),
      if_pos hquote]

private theorem takes_findTopLevel (hc : Fragment.Loose c) (hstop : depth = 0 → c ∉ stops) :
    Takes silent (findTopLevel stops depth) (findTopLevel stops depth) c := by
  obtain ⟨⟨hquote, -, -⟩, hbracket⟩ := hc
  simp only [List.mem_cons, List.not_mem_nil, or_false, not_or] at hbracket
  obtain ⟨h₁, h₂, h₃, h₄⟩ := hbracket
  intro rest hslash place
  rw [List.singleton_append, findTopLevel_cons, if_neg hslash, if_neg hquote, if_neg (by simp [*]),
    if_neg (by simp [*]), if_neg (fun h ↦ hstop h.1 h.2)]
  rfl

private theorem findTopLevel_piece {f : Fragment} (hf : f.IsLoose)
    (hstops : ∀ c ∈ stops, c = ';' ∨ c = '\x7b') (hrest : rest.head? ≠ some '*') :
    findTopLevel stops 0 ⟨place, f.text ++ rest⟩ =
      findTopLevel stops 0 ⟨place + byteLength f.text, rest⟩ := by
  refine (loop_findTopLevel stops).passes_over 0 hf ?_ ?_ ?_ hrest place
  · rintro c ⟨hc, hsemicolon⟩
    refine takes_findTopLevel hc fun _ hmem ↦ ?_
    rcases hstops c hmem with rfl | rfl
    · exact hsemicolon rfl
    · exact hc.1.2.1 rfl
  · intro depth pair hpair
    refine ⟨depth + 1, ?_, fun c hc ↦ takes_findTopLevel hc nofun, ?_⟩
    · intro rest _ place
      simp only [Fragment.brackets, List.mem_cons, List.not_mem_nil, or_false] at hpair
      rcases hpair with rfl | rfl <;> rw [List.singleton_append, findTopLevel_cons] <;> rfl
    · intro rest _ place
      simp only [Fragment.brackets, List.mem_cons, List.not_mem_nil, or_false] at hpair
      rcases hpair with rfl | rfl <;> rw [List.singleton_append, findTopLevel_cons] <;> rfl
  · decide

/-- Behind a piece, the search for a stop finds one. -/
theorem findTopLevel_stop {f : Fragment} (hf : f.IsLoose) (hc : c ∈ stops)
    (hstops : ∀ c ∈ stops, c = ';' ∨ c = '\x7b') :
    findTopLevel stops 0 ⟨place, f.text ++ c :: rest⟩ =
      (some c, ⟨place + byteLength f.text + 1, rest⟩) := by
  have hstar : (c :: rest).head? ≠ some '*' := by
    rcases hstops c hc with rfl | rfl <;> simp
  rw [findTopLevel_piece hf hstops hstar, findTopLevel_cons]
  rcases hstops c hc with rfl | rfl <;> simp [opensComment, isQuote, hc] <;> rfl

/-- In a piece alone there is no stop. -/
theorem findTopLevel_end {f : Fragment} (hf : f.IsLoose)
    (hstops : ∀ c ∈ stops, c = ';' ∨ c = '\x7b') :
    (findTopLevel stops 0 ⟨place, f.text⟩).1 = none := by
  have h : findTopLevel stops 0 ⟨place, f.text ++ []⟩ = _ := findTopLevel_piece hf hstops nofun
  rw [List.append_nil] at h
  rw [h, findTopLevel]

/-! ### The end of a block -/

private theorem closeBlock_cons :
    closeBlock depth ⟨place, c :: rest⟩ =
      if opensComment c rest then closeBlock depth (skipComment ⟨place + c.utf8Size, rest⟩)
      else if isQuote c then closeBlock depth (skipString ⟨place + c.utf8Size, rest⟩ c)
      else if c = '\x7b' then closeBlock (depth + 1) ⟨place + c.utf8Size, rest⟩
      else if c = '\x7d' then
        if depth ≤ 1 then (place, ⟨place + c.utf8Size, rest⟩)
        else closeBlock (depth - 1) ⟨place + c.utf8Size, rest⟩
      else closeBlock depth ⟨place + c.utf8Size, rest⟩ := by
  rw [closeBlock]

private theorem loop_closeBlock : Loop silent fun depth ↦ closeBlock (depth + 1) where
  out_nil _ := rfl
  out_append _ _ _ := rfl
  comment depth place rest hopens := by
    rw [closeBlock_cons, if_pos hopens]
    rfl
  string depth quote inside rest hquote hinside := by
    refine silent_string hquote hinside fun place rest ↦ ?_
    rw [closeBlock_cons, if_neg (not_opensComment_of_ne (ne_slash_of_isQuote hquote)),
      if_pos hquote]

private theorem takes_closeBlock (hc : Fragment.Unbraced c) :
    Takes silent (closeBlock depth) (closeBlock depth) c := by
  obtain ⟨hquote, hopening, hclosing⟩ := hc
  intro rest hslash place
  rw [List.singleton_append, closeBlock_cons, if_neg hslash, if_neg hquote, if_neg hopening,
    if_neg hclosing]
  rfl

private theorem closeBlock_opening :
    closeBlock depth ⟨place, '\x7b' :: rest⟩ = closeBlock (depth + 1) ⟨place + 1, rest⟩ := by
  rw [closeBlock_cons]
  rfl

private theorem closeBlock_closing :
    closeBlock (depth + 2) ⟨place, '\x7d' :: rest⟩ = closeBlock (depth + 1) ⟨place + 1, rest⟩ := by
  rw [closeBlock_cons, if_neg (not_opensComment_of_ne (by decide)), if_neg (by decide),
    if_neg (by decide), if_pos rfl, if_neg (by omega)]
  rfl

/-- The search for the end of a block passes over what is balanced. -/
theorem closeBlock_block {f : Fragment} (hf : f.IsBlock) (hrest : rest.head? ≠ some '*') :
    closeBlock (depth + 1) ⟨place, f.text ++ rest⟩ =
      closeBlock (depth + 1) ⟨place + byteLength f.text, rest⟩ := by
  refine loop_closeBlock.passes_over depth hf (fun c hc ↦ takes_closeBlock hc) ?_ ?_ hrest place
  · intro depth pair hpair
    rcases List.mem_cons.mp hpair with rfl | hbracket
    · refine ⟨depth + 1, ?_, fun c hc ↦ takes_closeBlock hc, ?_⟩
      · exact fun rest _ place ↦ closeBlock_opening
      · exact fun rest _ place ↦ closeBlock_closing
    · obtain ⟨hopening, hclosing⟩ := Fragment.unbraced_of_mem_brackets hbracket
      exact ⟨depth, takes_closeBlock hopening, fun c hc ↦ takes_closeBlock hc,
        takes_closeBlock hclosing⟩
  · decide

/-- A block ends at the brace that closes it. -/
theorem skipBlock_block {f : Fragment} (hf : f.IsBlock) :
    skipBlock ⟨place, f.text ++ '\x7d' :: rest⟩ =
      (place + byteLength f.text, ⟨place + byteLength f.text + 1, rest⟩) := by
  rw [skipBlock, closeBlock_block hf (by simp), closeBlock_cons]
  rfl

/-! ### Whitespace and comments -/

private theorem skipTrivia_cons :
    skipTrivia ⟨place, c :: rest⟩ =
      if Text.isSpace c then skipTrivia ⟨place + c.utf8Size, rest⟩
      else if opensComment c rest then skipTrivia (skipComment ⟨place + 1, rest⟩)
      else ⟨place, c :: rest⟩ := by
  rw [skipTrivia]

private theorem skipTrivia_space (hc : Text.isSpace c) :
    Passes silent skipTrivia skipTrivia [c] [c] rest := by
  intro place
  rw [List.singleton_append, skipTrivia_cons, if_pos hc]
  rfl

private theorem skipTrivia_comment (hinside : ¬ ['*', '/'] <:+: inside) :
    Passes silent skipTrivia skipTrivia ('/' :: '*' :: (inside ++ ['*', '/'])) [] rest := by
  refine passes_comment (fun _ ↦ rfl) (fun place rest hopens ↦ ?_) hinside
  rw [skipTrivia_cons, if_neg (by decide), if_pos hopens]

theorem skipTrivia_other (hc : ¬ Text.isSpace c) (hslash : ¬ opensComment c rest) :
    skipTrivia ⟨place, c :: rest⟩ = ⟨place, c :: rest⟩ := by
  rw [skipTrivia_cons, if_neg hc, if_neg hslash]

private theorem not_isSpace_of_isQuote (h : isQuote quote) : ¬ Text.isSpace quote := by
  simp only [isQuote, Bool.or_eq_true, beq_iff_eq] at h
  rcases h with rfl | rfl <;> decide

private theorem not_isSpace_of_mem_brackets {opening closing : Char}
    (h : (opening, closing) ∈ Fragment.brackets) : ¬ Text.isSpace opening ∧ opening ≠ '/' := by
  simp only [Fragment.brackets, List.mem_cons, List.not_mem_nil, or_false, Prod.mk.injEq] at h
  rcases h with ⟨rfl, -⟩ | ⟨rfl, -⟩ <;> decide

/-- Whitespace and comments are passed over. -/
theorem skipTrivia_blank {f : Fragment} (hf : f.IsPiece)
    (hblank : ∀ c ∈ f.content, Text.isSpace c) :
    Passes silent skipTrivia skipTrivia f.text f.content rest := by
  induction f with
  | nil => exact fun _ ↦ rfl
  | char c f ih =>
    obtain ⟨-, -, hf⟩ := hf
    obtain ⟨hc, hblank⟩ := List.forall_mem_cons.mp hblank
    exact passes_trans (fun _ _ _ ↦ rfl) (skipTrivia_space hc) (ih hf hblank)
  | comment inside f ih =>
    obtain ⟨hinside, hf⟩ := hf
    have h := passes_trans (fun _ _ _ ↦ rfl) (skipTrivia_comment hinside) (ih hf hblank)
    simpa [Fragment.text, Fragment.content] using h
  | string quote inside f _ =>
    exact absurd (hblank quote List.mem_cons_self) (not_isSpace_of_isQuote hf.1)
  | group opening closing inside f _ _ =>
    exact absurd (hblank opening List.mem_cons_self) (not_isSpace_of_mem_brackets hf.1).1

/-- In front of a piece, whitespace and comments are passed over up to its first other character. -/
theorem skipTrivia_piece {f : Fragment} (place : Nat) (hf : f.IsLoose)
    (hstyle : (f.content.dropWhile Text.isSpace).head? ≠ some '@') (rest : List Char) :
    ∃ (place' : Nat) (g : Fragment), g.IsLoose ∧ g.text.head? ≠ some '@' ∧
      skipTrivia ⟨place, f.text ++ '\x7b' :: rest⟩ = ⟨place', g.text ++ '\x7b' :: rest⟩ := by
  induction f generalizing place with
  | nil =>
    have hslash : ¬ opensComment '\x7b' rest := not_opensComment_of_ne (by decide)
    exact ⟨place, .nil, trivial, nofun, skipTrivia_other (by decide) hslash⟩
  | char c f ih =>
    obtain ⟨hc, hslash, hpiece⟩ := hf
    by_cases hspace : Text.isSpace c
    · rw [Fragment.content, List.dropWhile_cons_of_pos hspace] at hstyle
      have hstep : skipTrivia ⟨place, c :: (f.text ++ '\x7b' :: rest)⟩ = _ :=
        skipTrivia_space hspace place
      rw [Fragment.text, List.cons_append, hstep]
      exact ih _ hpiece hstyle
    · rw [Fragment.content, List.dropWhile_cons_of_neg hspace] at hstyle
      exact ⟨place, .char c f, ⟨hc, hslash, hpiece⟩, hstyle,
        skipTrivia_other hspace (not_opensComment hslash (by simp))⟩
  | comment inside f ih =>
    obtain ⟨hinside, hpiece⟩ := hf
    have hstep : skipTrivia ⟨place, '/' :: '*' :: (inside ++ ['*', '/']) ++
        (f.text ++ '\x7b' :: rest)⟩ = _ := skipTrivia_comment hinside place
    have htext : (Fragment.comment inside f).text ++ '\x7b' :: rest =
        '/' :: '*' :: (inside ++ ['*', '/']) ++ (f.text ++ '\x7b' :: rest) := by
      simp [Fragment.text]
    rw [htext, hstep]
    exact ih _ hpiece hstyle
  | string quote inside f _ =>
    have hspace := not_isSpace_of_isQuote hf.1
    rw [Fragment.content, List.dropWhile_cons_of_neg hspace] at hstyle
    exact ⟨place, .string quote inside f, hf, hstyle,
      skipTrivia_other hspace (not_opensComment_of_ne (ne_slash_of_isQuote hf.1))⟩
  | group opening closing inside f _ _ =>
    obtain ⟨hspace, hslash⟩ := not_isSpace_of_mem_brackets hf.1
    rw [Fragment.content, List.dropWhile_cons_of_neg hspace] at hstyle
    exact ⟨place, .group opening closing inside f, hf, hstyle,
      skipTrivia_other hspace (not_opensComment_of_ne hslash)⟩

end Scanner

/-! ### Comments taken out -/

namespace Written

open Scanner

variable {place : Nat} {c quote : Char} {rest inside : List Char}

private theorem withoutComments_cons :
    withoutComments ⟨place, c :: rest⟩ =
      if opensComment c rest then withoutComments (skipComment ⟨place + c.utf8Size, rest⟩)
      else if isQuote c then
        upTo ⟨place, c :: rest⟩ (skipString ⟨place + c.utf8Size, rest⟩ c).place ++
          withoutComments (skipString ⟨place + c.utf8Size, rest⟩ c)
      else c :: withoutComments ⟨place + c.utf8Size, rest⟩ := by
  rw [withoutComments]

private theorem loop_withoutComments : Loop (· ++ ·) fun _ ↦ withoutComments where
  out_nil := List.nil_append
  out_append := List.append_assoc
  comment depth place rest hopens := by
    rw [withoutComments_cons, if_pos hopens]
    rfl
  string depth quote inside rest hquote hinside := by
    intro place
    have htext : quote :: (inside ++ [quote]) ++ rest = quote :: (inside ++ quote :: rest) := by
      simp
    have hplace : place + quote.utf8Size + byteLength (inside ++ [quote]) =
        place + byteLength (quote :: (inside ++ [quote])) := Nat.add_assoc _ _ _
    have hupTo := upTo_append place (quote :: (inside ++ [quote])) rest
    rw [htext] at hupTo ⊢
    rw [withoutComments_cons, if_neg (not_opensComment_of_ne (ne_slash_of_isQuote hquote)),
      if_pos hquote, skipString_append hquote hinside, hplace, hupTo]

private theorem takes_withoutComments (hquote : ¬ isQuote c) :
    Takes (· ++ ·) withoutComments withoutComments c := by
  intro rest hslash place
  rw [List.singleton_append, withoutComments_cons, if_neg hslash, if_neg hquote]
  rfl

/-- Of a fragment, everything but its comments is kept. -/
theorem withoutComments_block {f : Fragment} (hf : f.IsBlock) :
    withoutComments ⟨place, f.text⟩ = f.content := by
  have hpasses : Passes (· ++ ·) withoutComments withoutComments f.text f.content [] := by
    refine loop_withoutComments.passes_over 0 hf (fun c hc ↦ takes_withoutComments hc.1) ?_ ?_ nofun
    · intro depth pair hpair
      have hquotes : ¬ isQuote pair.1 ∧ ¬ isQuote pair.2 := by
        rcases List.mem_cons.mp hpair with rfl | hbracket
        · decide
        · obtain ⟨hopening, hclosing⟩ := Fragment.unbraced_of_mem_brackets hbracket
          exact ⟨hopening.1, hclosing.1⟩
      exact ⟨0, takes_withoutComments hquotes.1, fun c hc ↦ takes_withoutComments hc.1,
        takes_withoutComments hquotes.2⟩
    · decide
  have hend : withoutComments ⟨place + byteLength f.text, []⟩ = [] := by rw [withoutComments]
  have h : withoutComments ⟨place, f.text ++ []⟩ = f.content ++ _ := hpasses place
  rwa [List.append_nil, hend, List.append_nil] at h

end Written

end StyleCheck.Style
