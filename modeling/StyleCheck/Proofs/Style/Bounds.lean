import StyleCheck.Proofs.Style.Offsets
import StyleCheck.Proofs.Style.Reaching
import StyleCheck.Proofs.Style.Recovery

/-!
# Offsets within bounds

However broken a text is, the scanner of written declarations takes no wrong offset in it. Each loop
over offsets does at a place in the text what the scanner does there, and so it fails nowhere. Main
statement: the scan with all offsets checked comes to an end on every text and finds the same.
-/

namespace StyleCheck.Style

open Text

/-! ### Accesses -/

theorem byteLength_eq_utf8ByteSize (cs : List Char) :
    byteLength cs = (String.ofList cs).utf8ByteSize := by
  induction cs with
  | nil => rfl
  | cons c cs ih =>
    rw [byteLength, ih, String.ofList_cons, String.utf8ByteSize_append,
      String.utf8ByteSize_singleton]

namespace Checked

open Scanner

variable {text before after rest stops : List Char} {m n depth : Nat} {s s' : Scanner}
  {c quote : Char}

theorem splitBytes_append (before after : List Char) :
    splitBytes (byteLength before) (before ++ after) = some (before, after) := by
  induction before with
  | nil => cases after <;> rfl
  | cons c before ih =>
    have hpos := c.utf8Size_pos
    rw [byteLength, List.cons_append, splitBytes, if_neg (by omega),
      if_pos (Nat.le_add_right _ _), Nat.add_sub_cancel_left, ih]
    rfl

theorem eq_of_splitBytes (h : splitBytes n text = some (before, after)) :
    text = before ++ after ∧ n = byteLength before := by
  fun_induction splitBytes n text generalizing before with
  | case1 =>
    cases h
    exact ⟨rfl, rfl⟩
  | case2 => cases h
  | case3 c cs =>
    cases h
    exact ⟨rfl, rfl⟩
  | case4 n c cs hn hle ih =>
    obtain ⟨⟨before', after'⟩, hsplit, heq⟩ := Option.map_eq_some_iff.mp h
    cases heq
    obtain ⟨hcs, hbytes⟩ := ih hsplit
    refine ⟨congrArg (c :: ·) hcs, ?_⟩
    show n = c.utf8Size + byteLength before'
    omega
  | case5 => cases h

theorem textFrom_append (before after : List Char) :
    textFrom (before ++ after) (byteLength before) = some after := by
  rw [textFrom, splitBytes_append]
  rfl

/-- There is a text from an offset on just where the offset is a valid position. -/
theorem isSome_textFrom_iff :
    (textFrom text n).isSome ↔ (String.Pos.Raw.mk n).IsValid (String.ofList text) := by
  rw [Option.isSome_iff_exists, String.Pos.Raw.isValid_iff_exists_append]
  constructor
  · rintro ⟨after, h⟩
    obtain ⟨⟨before, _⟩, hsplit, rfl⟩ := Option.map_eq_some_iff.mp h
    obtain ⟨rfl, rfl⟩ := eq_of_splitBytes hsplit
    refine ⟨.ofList before, .ofList _, String.ofList_append, ?_⟩
    rw [byteLength_eq_utf8ByteSize]
    rfl
  · rintro ⟨before, after, htext, hn⟩
    have hn : n = before.utf8ByteSize := congrArg String.Pos.Raw.byteIdx hn
    have htext : text = before.toList ++ after.toList := by
      rw [← String.toList_append, ← htext, String.toList_ofList]
    refine ⟨after.toList, ?_⟩
    rw [htext, hn, ← String.ofList_toList (s := before), ← byteLength_eq_utf8ByteSize,
      String.toList_ofList]
    exact textFrom_append _ _

theorem minus_of_le (h : n ≤ m) : minus m n = some (m - n) := if_pos h

private theorem findClose_cons (h : ∀ cs, c = '*' → rest = '/' :: cs → False) :
    findClose (c :: rest) = (findClose rest).map (c.utf8Size + ·) := by
  rw [findClose.eq_def]
  split
  · next heq => cases heq
  · next heq =>
    cases heq
    exact absurd rfl (h _ rfl)
  · next heq =>
    cases heq
    rfl

/-- A comment ends two bytes behind the place of its `*/`, or with the text. -/
theorem place_closeComment (place : Nat) (text : List Char) :
    (closeComment place text).place =
      place + (findClose text).elim (byteLength text) (· + 2) := by
  fun_induction closeComment place text with
  | case1 place => rfl
  | case2 place rest => rfl
  | case3 place c rest h ih =>
    rw [ih, findClose_cons h, byteLength]
    cases findClose rest <;> simp <;> omega

theorem findLast_cases (c : Char) (text : List Char) :
    (findLast c text = none ∧ c ∉ text) ∨
      ∃ before after, findLast c text = some (byteLength before) ∧
        text = before ++ c :: after ∧ c ∉ after := by
  induction text with
  | nil => exact .inl ⟨rfl, List.not_mem_nil⟩
  | cons d ds ih =>
    rcases ih with ⟨hnone, hmem⟩ | ⟨before, after, hsome, rfl, hmem⟩
    · by_cases hd : d = c
      · refine .inr ⟨[], ds, ?_, by rw [hd]; rfl, hmem⟩
        simp only [findLast, hnone, if_pos hd, byteLength]
      · refine .inl ⟨?_, ?_⟩
        · simp only [findLast, hnone, if_neg hd]
        · simpa using ⟨Ne.symm hd, hmem⟩
    · refine .inr ⟨d :: before, after, ?_, rfl, hmem⟩
      simp only [findLast, hsome, byteLength]

/-! ### Loops -/

section

variable {σ ρ : Type} {round : σ → Option (Round σ ρ)} {state next : σ} {result : ρ}

/-- More rounds change nothing once the loop has come to an end. -/
theorem loop_mono (h : loop round m state = some result) (hle : m ≤ n) :
    loop round n state = some result := by
  induction m generalizing n state with
  | zero => cases h
  | succ m ih =>
    cases n with
    | zero => omega
    | succ n =>
      rw [loop] at h ⊢
      cases hround : round state with
      | none =>
        rw [hround] at h
        cases h
      | some r =>
        rw [hround] at h
        cases r with
        | again next => exact ih h (Nat.le_of_succ_le_succ hle)
        | done result => exact h

theorem loop_done (h : round state = some (.done result)) :
    loop round (n + 1) state = some result := by
  rw [loop, h]
  rfl

theorem loop_again (h : round state = some (.again next)) (hnext : loop round m next = some result)
    (hlt : m < n) : loop round n state = some result := by
  cases n with
  | zero => omega
  | succ n =>
    rw [loop, h]
    exact loop_mono hnext (Nat.le_of_lt_succ hlt)

end

/-! ### The cursor -/

section

variable (h : (ofChars text).Reaches s)
include h

theorem textFrom_eq : textFrom text s.place = some s.rest := by
  obtain ⟨before, htext, hplace⟩ := h
  have hplace : s.place = byteLength before := hplace.trans (Nat.zero_add _)
  have htext : text = before ++ s.rest := htext
  rw [hplace, htext, textFrom_append]

theorem moveTo_eq (h' : s.Reaches s') : moveTo text s.place s'.place = some s'.place := by
  rw [moveTo, minus_of_le h'.place_le, textFrom_eq (h.trans h')]
  rfl

theorem bump_eq : bump text s.place = some s.bump.place := by
  have hmove := moveTo_eq h (reaches_bump s)
  rw [bump, textFrom_eq h]
  rw [Scanner.bump] at hmove ⊢
  cases hs : s.rest with
  | nil => rfl
  | cons c rest => rwa [hs] at hmove

theorem slice_eq (h' : s.Reaches s') : slice text s.place s'.place = some (s.upTo s'.place) := by
  obtain ⟨hrest, hplace⟩ := h'.upTo
  have hminus : minus s'.place s.place = some (byteLength (s.upTo s'.place)) := by
    rw [minus_of_le h'.place_le]
    exact congrArg some (by omega)
  have hsplit := splitBytes_append (s.upTo s'.place) s'.rest
  rw [← hrest] at hsplit
  rw [slice, textFrom_eq h, hminus]
  simp only [Option.bind_eq_bind, Option.bind_some, hsplit]
  rfl

theorem skipComment_eq (hstar : s.rest.head? = some '*') :
    skipComment text s.place = some s.skipComment.place := by
  obtain ⟨rest, hs⟩ := List.head?_eq_some_iff.mp hstar
  have hbump : s.bump = ⟨s.place + 1, rest⟩ := by
    rw [Scanner.bump, hs]
    rfl
  have hmove := moveTo_eq h (reaches_bump s)
  have hinside := h.trans (reaches_bump s)
  rw [hbump] at hmove hinside
  have hclose := moveTo_eq hinside (reaches_closeComment (s.place + 1) rest)
  rw [Scanner.skipComment, hbump, skipComment, hmove]
  simp only [Option.bind_eq_bind, Option.bind_some, textFrom_eq hinside]
  rw [place_closeComment] at hclose ⊢
  cases hfind : findClose rest with
  | some n =>
    rw [hfind] at hclose
    exact hclose
  | none =>
    rw [hfind] at hclose
    rw [hinside.byteLength_eq]
    exact hclose

end

/-- Where no `*` stands, the byte that is taken for it can end in a character. -/
example : skipComment ['/', 'é'] 1 = none := by decide

theorem bump_cons (h : (ofChars text).Reaches s) (hs : s.rest = c :: rest) :
    bump text s.place = some (s.place + c.utf8Size) := by
  rw [bump_eq h, Scanner.bump, hs]

section

variable {σ ρ : Type} {round : σ → Option (Round σ ρ)} {state next : σ} {result : ρ}

/-- A round that leaves less text than it found is followed by rounds enough for what is left. -/
theorem loop_reaches (h : (ofChars text).Reaches s) (hround : round state = some (.again next))
    (hreaches : s.Reaches s') (hlt : s'.rest.length < s.rest.length)
    (hnext : (ofChars text).Reaches s' → loop round (s'.rest.length + 1) next = some result) :
    loop round (s.rest.length + 1) state = some result :=
  loop_again hround (hnext (h.trans hreaches)) (Nat.succ_lt_succ hlt)

theorem loop_past (h : (ofChars text).Reaches s) (hs : s.rest = c :: rest)
    (hround : round state = some (.again next))
    (hpast : Reaches ⟨s.place + c.utf8Size, rest⟩ s')
    (hnext : (ofChars text).Reaches s' → loop round (s'.rest.length + 1) next = some result) :
    loop round (s.rest.length + 1) state = some result :=
  loop_reaches h hround ((reaches_past hs).trans hpast) (length_lt_of_past hs hpast) hnext

end

/-! ### Strings and whitespace -/

theorem stringRound_nil (h : (ofChars text).Reaches s) (hs : s.rest = []) (quote : Char) :
    stringRound text quote s.place = some (.done s.place) := by
  rw [stringRound, textFrom_eq h, hs]
  rfl

theorem stringRound_cons (h : (ofChars text).Reaches s) (hs : s.rest = c :: rest) :
    stringRound text quote s.place =
      let past : Scanner := ⟨s.place + c.utf8Size, rest⟩
      if c = '\\' then some (.again past.bump.place)
      else if c = quote then some (.done past.place)
      else some (.again past.place) := by
  have hpast := h.trans (reaches_past hs)
  rw [stringRound, textFrom_eq h, hs]
  simp only [Option.bind_eq_bind, Option.bind_some, bump_cons h hs]
  split
  · rw [bump_eq hpast]
    rfl
  · rfl

private theorem ne_backslash (hlast : c = '\\' → rest = [] → False)
    (hnext : ∀ d ds, c = '\\' → rest = d :: ds → False) : c ≠ '\\' := by
  intro hc
  cases rest with
  | nil => exact hlast hc rfl
  | cons d ds => exact hnext d ds hc rfl

private theorem loop_stringRound {place : Nat} (h : (ofChars text).Reaches ⟨place, rest⟩)
    (quote : Char) :
    loop (stringRound text quote) (rest.length + 1) place =
      some (closeString quote place rest).place := by
  fun_induction closeString quote place rest with
  | case1 place => exact loop_done (stringRound_nil h rfl quote)
  | case2 place =>
    have hround : stringRound text quote place = some (.again (place + 1)) := by
      rw [stringRound_cons h rfl, if_pos rfl]
      rfl
    exact loop_past h rfl hround (.refl _) fun hend ↦ loop_done (stringRound_nil hend rfl quote)
  | case3 place c rest ih =>
    have hround : stringRound text quote place = some (.again (place + 1 + c.utf8Size)) := by
      rw [stringRound_cons h rfl, if_pos rfl]
      rfl
    exact loop_past h rfl hround (reaches_past rfl) ih
  | case4 place rest hlast hnext =>
    have hc := ne_backslash hlast hnext
    exact loop_done (by rw [stringRound_cons h rfl, if_neg hc, if_pos rfl])
  | case5 place c rest hlast hnext hquote ih =>
    have hc := ne_backslash hlast hnext
    exact loop_past h rfl (by rw [stringRound_cons h rfl, if_neg hc, if_neg hquote]) (.refl _) ih

theorem skipString_eq (h : (ofChars text).Reaches s) (quote : Char) :
    skipString text quote s.place = some (s.skipString quote).place :=
  loop_mono (loop_stringRound h quote) (Nat.succ_le_succ h.length_le)

theorem triviaRound_nil (h : (ofChars text).Reaches s) (hs : s.rest = []) :
    triviaRound text s.place = some (.done (none, s.place)) := by
  rw [triviaRound, textFrom_eq h, hs]
  rfl

theorem triviaRound_cons (h : (ofChars text).Reaches s) (hs : s.rest = c :: rest) :
    triviaRound text s.place =
      let past : Scanner := ⟨s.place + c.utf8Size, rest⟩
      if isSpace c then some (.again past.place)
      else if opensComment c rest then some (.again past.skipComment.place)
      else some (.done (some c, s.place)) := by
  have hpast := h.trans (reaches_past hs)
  rw [triviaRound, textFrom_eq h, hs]
  simp only [Option.bind_eq_bind, Option.bind_some, bump_cons h hs]
  split
  · rfl
  split
  · next hopens =>
    obtain ⟨rfl, hstar⟩ := opensComment_iff.mp hopens
    have hmove : moveTo text s.place (s.place + 1) = _ := moveTo_eq h (reaches_past hs)
    rw [hmove, Option.bind_some, skipComment_eq hpast hstar]
    rfl
  · rfl

theorem skipTrivia_eq (h : (ofChars text).Reaches s) :
    skipTrivia text s.place = some (s.skipTrivia.rest.head?, s.skipTrivia.place) := by
  refine loop_mono ?_ (Nat.succ_le_succ h.length_le)
  fun_induction Scanner.skipTrivia s with
  | case1 s hs =>
    rw [hs]
    exact loop_done (triviaRound_nil h hs)
  | case2 s c rest hs hspace ih =>
    exact loop_past h hs (by rw [triviaRound_cons h hs, if_pos hspace]) (.refl _) ih
  | case3 s c rest hs hspace hopens ih =>
    obtain ⟨rfl, -⟩ := opensComment_iff.mp hopens
    have hround := triviaRound_cons h hs
    rw [if_neg hspace, if_pos hopens] at hround
    exact loop_past h hs hround (reaches_skipComment _) ih
  | case4 s c rest hs hspace hopens =>
    rw [hs]
    exact loop_done (by rw [triviaRound_cons h hs, if_neg hspace, if_neg hopens]; rfl)

/-! ### Stops and blocks -/

theorem stopRound_nil (h : (ofChars text).Reaches s) (hs : s.rest = []) (stops : List Char)
    (depth : Nat) : stopRound text stops (depth, s.place) = some (.done (none, s.place)) := by
  rw [stopRound, textFrom_eq h, hs]
  rfl

theorem stopRound_cons (h : (ofChars text).Reaches s) (hs : s.rest = c :: rest)
    (stops : List Char) (depth : Nat) :
    stopRound text stops (depth, s.place) =
      let past : Scanner := ⟨s.place + c.utf8Size, rest⟩
      if opensComment c rest then some (.again (depth, past.skipComment.place))
      else if isQuote c then some (.again (depth, (past.skipString c).place))
      else if c = '(' ∨ c = '[' then some (.again (depth + 1, past.place))
      else if c = ')' ∨ c = ']' then some (.again (depth - 1, past.place))
      else if depth = 0 ∧ c ∈ stops then some (.done (some c, past.place))
      else some (.again (depth, past.place)) := by
  have hpast := h.trans (reaches_past hs)
  rw [stopRound, textFrom_eq h, hs]
  simp only [Option.bind_eq_bind, Option.bind_some, bump_cons h hs, textFrom_eq hpast]
  split
  · next hopens =>
    rw [skipComment_eq hpast (opensComment_iff.mp hopens).2]
    rfl
  · rw [skipString_eq hpast]
    rfl

theorem findTopLevel_eq (h : (ofChars text).Reaches s) (stops : List Char) (depth : Nat) :
    findTopLevel text stops depth s.place =
      some ((s.findTopLevel stops depth).1, (s.findTopLevel stops depth).2.place) := by
  -- One round more than there are characters ahead suffices, and no fewer are allowed.
  refine loop_mono ?_ (Nat.succ_le_succ h.length_le)
  fun_induction Scanner.findTopLevel stops depth s with
  | case1 depth s hs => exact loop_done (stopRound_nil h hs stops depth)
  | case2 depth s c rest hs past hopens ih =>
    have hround := stopRound_cons h hs stops depth
    rw [if_pos hopens] at hround
    exact loop_past h hs hround (reaches_skipComment past) ih
  | case3 depth s c rest hs past hopens hquote ih =>
    have hround := stopRound_cons h hs stops depth
    rw [if_neg hopens, if_pos hquote] at hround
    exact loop_past h hs hround (reaches_skipString past c) ih
  | case4 depth s c rest hs past hopens hquote hopening ih =>
    have hround := stopRound_cons h hs stops depth
    rw [if_neg hopens, if_neg hquote, if_pos hopening] at hround
    exact loop_past h hs hround (.refl _) ih
  | case5 depth s c rest hs past hopens hquote hopening hclosing ih =>
    have hround := stopRound_cons h hs stops depth
    rw [if_neg hopens, if_neg hquote, if_neg hopening, if_pos hclosing] at hround
    exact loop_past h hs hround (.refl _) ih
  | case6 depth s c rest hs past hopens hquote hopening hclosing hstop =>
    have hround := stopRound_cons h hs stops depth
    rw [if_neg hopens, if_neg hquote, if_neg hopening, if_neg hclosing, if_pos hstop] at hround
    exact loop_done hround
  | case7 depth s c rest hs past hopens hquote hopening hclosing hstop ih =>
    have hround := stopRound_cons h hs stops depth
    rw [if_neg hopens, if_neg hquote, if_neg hopening, if_neg hclosing, if_neg hstop] at hround
    exact loop_past h hs hround (.refl _) ih

theorem blockRound_nil (h : (ofChars text).Reaches s) (hs : s.rest = []) (depth : Nat) :
    blockRound text (depth, s.place) = some (.done (s.place, s.place)) := by
  rw [blockRound, textFrom_eq h, h.byteLength_eq, hs]
  rfl

/-- One block at least is open, so the number of open blocks can be lowered. -/
theorem blockRound_cons (h : (ofChars text).Reaches s) (hs : s.rest = c :: rest)
    (hdepth : 1 ≤ depth) :
    blockRound text (depth, s.place) =
      let past : Scanner := ⟨s.place + c.utf8Size, rest⟩
      if opensComment c rest then some (.again (depth, past.skipComment.place))
      else if isQuote c then some (.again (depth, (past.skipString c).place))
      else if c = '\x7b' then some (.again (depth + 1, past.place))
      else if c = '\x7d' then
        if depth ≤ 1 then some (.done (s.place, past.place))
        else some (.again (depth - 1, past.place))
      else some (.again (depth, past.place)) := by
  have hpast := h.trans (reaches_past hs)
  rw [blockRound, textFrom_eq h, hs]
  simp only [Option.bind_eq_bind, Option.bind_some, bump_cons h hs, textFrom_eq hpast]
  split
  · next hopens =>
    rw [skipComment_eq hpast (opensComment_iff.mp hopens).2]
    rfl
  split
  · rw [skipString_eq hpast]
    rfl
  split
  · rfl
  split
  · next hbrace =>
    subst hbrace
    have hone : Char.utf8Size '\x7d' = 1 := rfl
    rw [minus_of_le hdepth, hone, minus_of_le (Nat.le_add_left 1 s.place), Nat.add_sub_cancel]
    simp only [Option.bind_some, Nat.sub_eq_zero_iff_le]
    rfl
  · rfl

private theorem loop_blockRound (h : (ofChars text).Reaches s) (hdepth : 1 ≤ depth) :
    loop (blockRound text) (s.rest.length + 1) (depth, s.place) =
      some ((s.closeBlock depth).1, (s.closeBlock depth).2.place) := by
  fun_induction Scanner.closeBlock depth s with
  | case1 depth s hs => exact loop_done (blockRound_nil h hs depth)
  | case2 depth s c rest hs past hopens ih =>
    have hround := blockRound_cons h hs hdepth
    rw [if_pos hopens] at hround
    exact loop_past h hs hround (reaches_skipComment past) fun hnext ↦ ih hnext hdepth
  | case3 depth s c rest hs past hopens hquote ih =>
    have hround := blockRound_cons h hs hdepth
    rw [if_neg hopens, if_pos hquote] at hround
    exact loop_past h hs hround (reaches_skipString past c) fun hnext ↦ ih hnext hdepth
  | case4 depth s rest hs past hopens hquote ih =>
    have hround := blockRound_cons h hs hdepth
    rw [if_neg hopens, if_neg hquote, if_pos rfl] at hround
    exact loop_past h hs hround (.refl _) fun hnext ↦ ih hnext (Nat.le_add_left 1 depth)
  | case5 depth s rest hle hs past hopens hquote hopening =>
    have hround := blockRound_cons h hs hdepth
    rw [if_neg hopens, if_neg hquote, if_neg hopening, if_pos rfl, if_pos hle] at hround
    exact loop_done hround
  | case6 depth s rest hlt hs past hopens hquote hopening ih =>
    have hround := blockRound_cons h hs hdepth
    rw [if_neg hopens, if_neg hquote, if_neg hopening, if_pos rfl, if_neg hlt] at hround
    exact loop_past h hs hround (.refl _) fun hnext ↦ ih hnext (by omega)
  | case7 depth s c rest hs past hopens hquote hopening hclosing ih =>
    have hround := blockRound_cons h hs hdepth
    rw [if_neg hopens, if_neg hquote, if_neg hopening, if_neg hclosing] at hround
    exact loop_past h hs hround (.refl _) fun hnext ↦ ih hnext hdepth

theorem skipBlock_eq (h : (ofChars text).Reaches s) :
    skipBlock text s.place = some (s.skipBlock.1, s.skipBlock.2.place) :=
  loop_mono (loop_blockRound h (Nat.le_refl 1)) (Nat.succ_le_succ h.length_le)

theorem slice_body (h : (ofChars text).Reaches s) :
    slice text s.place s.skipBlock.1 = some (s.upTo s.skipBlock.1) := by
  obtain ⟨rest, hend, -⟩ := (closes_skipBlock s).exists_reaches
  exact slice_eq h hend

/-! ### Declarations -/

private theorem utf8Size_of_isQuote (h : isQuote quote) : quote.utf8Size = 1 := by
  simp only [isQuote, Bool.or_eq_true, beq_iff_eq] at h
  rcases h with rfl | rfl <;> rfl

private theorem loop_commentsRound (h : (ofChars text).Reaches s) (kept : List Char) :
    loop (commentsRound text) (s.rest.length + 1) (kept, s.place) =
      some (kept ++ Written.withoutComments s) := by
  fun_induction Written.withoutComments s generalizing kept with
  | case1 s hs =>
    have hround : commentsRound text (kept, s.place) = some (.done kept) := by
      rw [commentsRound, textFrom_eq h, hs]
      rfl
    rw [List.append_nil]
    exact loop_done hround
  | case2 s c rest hs past hopens ih =>
    have hpast := h.trans (reaches_past hs)
    have hround : commentsRound text (kept, s.place) =
        some (.again (kept, past.skipComment.place)) := by
      rw [commentsRound, textFrom_eq h, hs]
      simp only [Option.bind_eq_bind, Option.bind_some, bump_cons h hs, textFrom_eq hpast,
        if_pos hopens, skipComment_eq hpast (opensComment_iff.mp hopens).2]
      rfl
    exact loop_past h hs hround (reaches_skipComment past) fun hnext ↦ ih hnext kept
  | case3 s c rest hs past hopens hquote closed ih =>
    have hpast := h.trans (reaches_past hs)
    have hstart : minus (s.place + c.utf8Size) 1 = some s.place := by
      rw [utf8Size_of_isQuote hquote, minus_of_le (Nat.le_add_left 1 s.place), Nat.add_sub_cancel]
    have hslice : slice text s.place (past.skipString c).place = some (s.upTo closed.place) :=
      slice_eq h (reaches_pastString hs)
    have hround : commentsRound text (kept, s.place) =
        some (.again (kept ++ s.upTo closed.place, closed.place)) := by
      rw [commentsRound, textFrom_eq h, hs]
      simp only [Option.bind_eq_bind, Option.bind_some, bump_cons h hs, textFrom_eq hpast,
        if_neg hopens, if_pos hquote, hstart, skipString_eq hpast]
      rw [hslice]
      rfl
    rw [← List.append_assoc]
    exact loop_past h hs hround (reaches_skipString past c) fun hnext ↦ ih hnext _
  | case4 s c rest hs past hopens hquote ih =>
    have hpast := h.trans (reaches_past hs)
    have hround : commentsRound text (kept, s.place) =
        some (.again (kept ++ [c], past.place)) := by
      rw [commentsRound, textFrom_eq h, hs]
      simp only [Option.bind_eq_bind, Option.bind_some, bump_cons h hs, textFrom_eq hpast,
        if_neg hopens, if_neg hquote]
      rfl
    rw [← List.singleton_append, ← List.append_assoc]
    exact loop_past h hs hround (.refl _) fun hnext ↦ ih hnext _

theorem withoutComments_eq (text : List Char) :
    withoutComments text = some (Written.withoutComments (ofChars text)) :=
  loop_commentsRound (.refl (ofChars text)) []

theorem withoutImportance_eq (value : List Char) :
    withoutImportance value = some (Written.withoutImportance value) := by
  rcases findLast_cases '!' value with ⟨hfind, hmem⟩ | ⟨before, after, hfind, rfl, hmem⟩
  · have hreverse : '!' ∉ value.reverse := by simpa using hmem
    rw [withoutImportance, Written.withoutImportance, hfind, Written.splitAtLast,
      Written.splitAtFirst_eq_none hreverse]
    rfl
  · have hbang : textFrom ('!' :: after) 1 = some after := textFrom_append ['!'] after
    rw [withoutImportance, Written.withoutImportance, hfind, Written.splitAtLast_append hmem]
    simp only [Option.bind_eq_bind, Option.bind_some, splitBytes_append, hbang]
    split <;> rfl

theorem declaration_eq (text : List Char) :
    declaration text = some (Written.declaration? text) := by
  rw [declaration, Written.declaration?, withoutComments_eq]
  simp only [Option.bind_eq_bind, Option.bind_some]
  cases Written.splitAtFirst ':' (Written.withoutComments (ofChars text)) with
  | none => rfl
  | some parts =>
    obtain ⟨name, value⟩ := parts
    by_cases hname : (trimChars name).isEmpty
    · simp only [if_pos hname]
      rfl
    · simp only [if_neg hname, withoutImportance_eq, Option.bind_some]
      cases Written.withoutImportance (trimChars value) <;> rfl

/-- What the search for the end of a piece finds decides what a round does. -/
theorem piecesRound_eq (h : (ofChars text).Reaches s) (declared : List WrittenDeclaration) :
    piecesRound text (declared, s.place) =
      match s.findTopLevel [';', '\x7b'] 0 with
      | (none, _) => some (.done (declared ++ (Written.declaration? s.rest).toList))
      | (some c, past) =>
        if c = ';' then
          let next := Written.declaration? (s.upTo (past.place - 1))
          some (.again (declared ++ next.toList, past.place))
        else some (.again (declared, past.skipBlock.2.place)) := by
  have hstops := stops_findTopLevel [';', '\x7b'] 0 s
  rw [piecesRound, findTopLevel_eq h]
  generalize s.findTopLevel [';', '\x7b'] 0 = found at hstops
  cases hstops with
  | nowhere _ =>
    have hslice := slice_eq h (reaches_end s)
    rw [upTo_end, ← h.byteLength_eq] at hslice
    simp only [Option.bind_eq_bind, Option.bind_some, hslice, declaration_eq]
    rfl
  | @past c place rest _ hplace =>
    simp only [Option.bind_eq_bind, Option.bind_some]
    split
    · next hc =>
      subst hc
      have hminus : minus (place + Char.utf8Size ';') 1 = some place :=
        minus_of_le (Nat.le_add_left 1 place)
      have hslice : slice text s.place place = some (s.upTo place) := slice_eq h hplace
      simp only [Option.bind_some, hminus, hslice, declaration_eq]
      rfl
    · rw [skipBlock_eq (h.trans (hplace.trans (reaches_past rfl)))]
      rfl

private theorem loop_piecesRound (h : (ofChars text).Reaches s)
    (declared : List WrittenDeclaration) :
    loop (piecesRound text) (s.rest.length + 1) (declared, s.place) =
      some (declared ++ (Written.pieces s).filterMap Written.declaration?) := by
  fun_induction Written.pieces s generalizing declared with
  | case1 s past hfind =>
    have hround := piecesRound_eq h declared
    rw [hfind] at hround
    rw [List.filterMap_cons, List.filterMap_nil]
    cases hd : Written.declaration? s.rest <;> rw [hd] at hround <;> exact loop_done hround
  | case2 s past hfind ih =>
    have hstops := hfind ▸ stops_findTopLevel [';', '\x7b'] 0 s
    have hround := piecesRound_eq h declared
    rw [hfind] at hround
    have hloop := loop_reaches h hround hstops.reaches (length_findTopLevel_lt hfind)
      fun hnext ↦ ih hnext _
    rw [hloop, List.filterMap_cons, List.append_assoc]
    cases Written.declaration? (s.upTo (past.place - 1)) <;> rfl
  | case3 s c past hfind hc ih =>
    have hstops := hfind ▸ stops_findTopLevel [';', '\x7b'] 0 s
    have hround := piecesRound_eq h declared
    rw [hfind] at hround
    simp only [if_neg hc] at hround
    exact loop_reaches h hround (hstops.reaches.trans (closes_skipBlock past).reaches)
      (length_skipBlock_lt hfind) fun hnext ↦ ih hnext declared

theorem declarations_eq (body : List Char) :
    declarations body = some (Written.declarations body) :=
  loop_piecesRound (.refl (ofChars body)) []

theorem rulesRound_nil (h : (ofChars text).Reaches s) (hs : s.skipTrivia.rest = [])
    (blocks : List (List WrittenDeclaration)) :
    rulesRound text (blocks, s.place) = some (.done blocks) := by
  rw [rulesRound, skipTrivia_eq h, hs]
  rfl

/-- An at-rule is passed over with its block, if it has one. -/
theorem rulesRound_at (h : (ofChars text).Reaches s) (hat : s.skipTrivia.rest = '@' :: rest)
    (blocks : List (List WrittenDeclaration)) :
    rulesRound text (blocks, s.place) =
      let found := s.skipTrivia.findTopLevel [';', '\x7b'] 0
      if found.1 = some '\x7b' then some (.again (blocks, found.2.skipBlock.2.place))
      else some (.again (blocks, found.2.place)) := by
  have hstart := h.trans (reaches_skipTrivia s)
  have hpast := hstart.trans (stops_findTopLevel [';', '\x7b'] 0 s.skipTrivia).reaches
  rw [rulesRound, skipTrivia_eq h, hat]
  simp only [Option.bind_eq_bind, Option.bind_some, List.head?_cons, if_pos]
  rw [findTopLevel_eq hstart]
  simp only [Option.bind_some, skipBlock_eq hpast]
  rfl

/-- A style rule gives the declarations of its body. -/
theorem rulesRound_style (h : (ofChars text).Reaches s) (hstyle : s.skipTrivia.rest = c :: rest)
    (hc : c ≠ '@') (blocks : List (List WrittenDeclaration)) :
    rulesRound text (blocks, s.place) =
      let found := s.skipTrivia.findTopLevel ['\x7b'] 0
      if found.1.isNone then some (.done blocks)
      else
        let block := found.2.skipBlock
        let declared := Written.declarations (found.2.upTo block.1)
        some (.again (blocks ++ [declared], block.2.place)) := by
  have hstart := h.trans (reaches_skipTrivia s)
  have hpast := hstart.trans (stops_findTopLevel ['\x7b'] 0 s.skipTrivia).reaches
  rw [rulesRound, skipTrivia_eq h, hstyle]
  simp only [Option.bind_eq_bind, Option.bind_some, List.head?_cons, if_neg hc]
  rw [findTopLevel_eq hstart]
  simp only [Option.bind_some]
  split
  · rfl
  · rw [skipBlock_eq hpast]
    simp only [Option.bind_some, slice_body hpast, declarations_eq]
    rfl

private theorem loop_rulesRound (h : (ofChars text).Reaches s)
    (blocks : List (List WrittenDeclaration)) :
    loop (rulesRound text) (s.rest.length + 1) (blocks, s.place) =
      some (blocks ++ (Written.bodies s).map fun body ↦ Written.declarations body.2) := by
  -- One call of `bodies` is one round. Only an at-rule that ends with the text takes another round,
  -- to see the end, where `bodies` stops at once.
  fun_induction Written.bodies s generalizing blocks with
  | case1 s start hend =>
    rw [List.map_nil, List.append_nil]
    exact loop_done (rulesRound_nil h hend blocks)
  | case2 s start after past hfind hat =>
    have hstart := reaches_skipTrivia s
    have hstops := hfind ▸ stops_findTopLevel [';', '\x7b'] 0 start
    have hround := rulesRound_at h hat blocks
    rw [hfind] at hround
    have hpos : 0 < start.rest.length := hat ▸ Nat.succ_pos _
    cases hstops with
    | @nowhere place hend =>
      -- There was an `@` at least, so one round is left.
      have htrivia : (Scanner.skipTrivia ⟨place, []⟩).rest = [] := by rw [Scanner.skipTrivia]
      rw [List.map_nil, List.append_nil]
      exact loop_reaches h hround (hstart.trans hend) (Nat.lt_of_lt_of_le hpos hstart.length_le)
        fun hnext ↦ loop_done (rulesRound_nil hnext htrivia blocks)
  | case3 s start after past hat hfind ih =>
    have hstart := reaches_skipTrivia s
    have hstops := hfind ▸ stops_findTopLevel [';', '\x7b'] 0 start
    have hround := rulesRound_at h hat blocks
    rw [hfind] at hround
    have hpast := (hstart.trans hstops.reaches).trans (closes_skipBlock past).reaches
    have hlt := Nat.lt_of_lt_of_le (length_skipBlock_lt hfind) hstart.length_le
    exact loop_reaches h hround hpast hlt fun hnext ↦ ih hnext blocks
  | case4 s start after c past hfind hc hat ih =>
    have hstart := reaches_skipTrivia s
    have hstops := hfind ▸ stops_findTopLevel [';', '\x7b'] 0 start
    have hstop : some c ≠ some '\x7b' := fun heq ↦ hc (Option.some.inj heq)
    have hround := rulesRound_at h hat blocks
    rw [hfind] at hround
    simp only [if_neg hstop] at hround
    have hlt := Nat.lt_of_lt_of_le (length_findTopLevel_lt hfind) hstart.length_le
    exact loop_reaches h hround (hstart.trans hstops.reaches) hlt fun hnext ↦ ih hnext blocks
  | case5 s start c after hat hc past hfind =>
    have hround := rulesRound_style h hat hc blocks
    rw [hfind] at hround
    rw [List.map_nil, List.append_nil]
    exact loop_done hround
  | case6 s start c after hat hc stop past hfind block ih =>
    have hstart := reaches_skipTrivia s
    have hstops := hfind ▸ stops_findTopLevel ['\x7b'] 0 start
    have hround := rulesRound_style h hat hc blocks
    rw [hfind] at hround
    have hpast := (hstart.trans hstops.reaches).trans (closes_skipBlock past).reaches
    have hlt := Nat.lt_of_lt_of_le (length_skipBlock_lt hfind) hstart.length_le
    have hloop := loop_reaches h hround hpast hlt fun hnext ↦ ih hnext _
    rw [hloop, List.map_cons, List.append_assoc]
    rfl

theorem styleBlocks_eq (css : String) : styleBlocks css = some (Written.styleBlocks css) :=
  loop_rulesRound (.refl (ofChars css.toList)) []

/-- No operation of the cursor fails at the place of the scanner, and each comes where the scanner
comes. A comment is passed over from its `*` on. -/
structure Follows (text : List Char) (s : Scanner) : Prop where
  bump : bump text s.place = some s.bump.place
  skipComment : s.rest.head? = some '*' →
    skipComment text s.place = some s.skipComment.place
  skipString : ∀ quote, skipString text quote s.place = some (s.skipString quote).place
  skipTrivia : skipTrivia text s.place = some (s.skipTrivia.rest.head?, s.skipTrivia.place)
  findTopLevel : ∀ stops depth, findTopLevel text stops depth s.place =
    some ((s.findTopLevel stops depth).1, (s.findTopLevel stops depth).2.place)
  skipBlock : skipBlock text s.place = some (s.skipBlock.1, s.skipBlock.2.place)

theorem follows_of_reaches (h : (ofChars text).Reaches s) : Follows text s where
  bump := bump_eq h
  skipComment := skipComment_eq h
  skipString := skipString_eq h
  skipTrivia := skipTrivia_eq h
  findTopLevel := findTopLevel_eq h
  skipBlock := skipBlock_eq h

end Checked

namespace Written

open Scanner

/-- Checking every offset changes nothing, whatever the text: within the rounds allowed the scan
comes to an end without a fault, and finds the same declarations. From every place of the text, too,
no operation of the cursor fails, and each goes forward, if anywhere, to a valid position in the
text. The bodies of the style rules are parts of the text, each behind the end of those before it.
-/
theorem styleBlocks_safe (css : String) :
    Checked.styleBlocks css = some (styleBlocks css) ∧
      (∀ s, (ofChars css.toList).Reaches s →
        Checked.Follows css.toList s ∧
        ∀ (quote : Char) (stops : List Char) (depth : Nat),
          ∀ s' ∈ [s.bump, s.skipComment, s.skipString quote, s.skipTrivia,
              (s.findTopLevel stops depth).2, s.skipBlock.2],
            s.place ≤ s'.place ∧ (String.Pos.Raw.mk s'.place).IsValid css ∧
              (ofChars css.toList).Reaches s') ∧
      (∀ b ∈ bodies (ofChars css.toList), ∃ before after,
        css.toList = before ++ b.2 ++ after ∧ b.1 = byteLength before) ∧
      (bodies (ofChars css.toList)).Pairwise fun b b' ↦ b.1 + byteLength b.2 < b'.1 := by
  have hbodies := laid_bodies (ofChars css.toList)
  refine ⟨Checked.styleBlocks_eq css, fun s hs ↦ ⟨Checked.follows_of_reaches hs, ?_⟩, ?_,
    hbodies.apart⟩
  · intro quote stops depth s' hmem
    have hreaches : s.Reaches s' := by
      simp only [List.mem_cons, List.not_mem_nil, or_false] at hmem
      rcases hmem with rfl | rfl | rfl | rfl | rfl | rfl
      · exact reaches_bump s
      · exact reaches_skipComment s
      · exact reaches_skipString s quote
      · exact reaches_skipTrivia s
      · exact (stops_findTopLevel stops depth s).reaches
      · exact (closes_skipBlock s).reaches
    have hs' := hs.trans hreaches
    have hfrom := Option.isSome_of_eq_some (Checked.textFrom_eq hs')
    have hvalid := Checked.isSome_textFrom_iff.mp hfrom
    rw [String.ofList_toList] at hvalid
    exact ⟨hreaches.place_le, hvalid, hs'⟩
  · intro b hb
    obtain ⟨-, rest, before, htext, hplace⟩ := hbodies.inside b hb
    refine ⟨before, rest, ?_, ?_⟩
    · rw [List.append_assoc]
      exact htext
    · exact hplace.trans (Nat.zero_add _)

/-- A brace in a comment and an escaped character of two bytes stand in the first body. The group in
front of the last brace is left open, and so is the string behind it: no second body begins. -/
theorem styleBlocks_safe_unclosed :
    let css := "é\x7bä:'\\é'/*\x7d*/\x7dü(\x7b'"
    let s : Scanner := ⟨3, "ä:'\\é'/*\x7d*/\x7dü(\x7b'".toList⟩
    let body := "ä:'\\é'/*\x7d*/".toList
    Checked.styleBlocks css = some [[⟨"ä", "'\\é'", false⟩]] ∧
      ((ofChars css.toList).Reaches s ∧
        Checked.skipBlock css.toList 3 = some (16, 17) ∧ (String.Pos.Raw.mk 17).IsValid css) ∧
      (3, body) ∈ bodies (ofChars css.toList) ∧
      ∃ before after, css.toList = before ++ body ++ after ∧ byteLength before = 3 := by
  intro css s body
  have hs : (ofChars css.toList).Reaches s := ⟨"é\x7b".toList, by decide +kernel, by decide⟩
  have hblock : s.skipBlock = (16, ⟨17, "ü(\x7b'".toList⟩) := by decide +kernel
  have hbody : (3, body) ∈ bodies (ofChars css.toList) := by decide +kernel
  have hblocks : styleBlocks css = [[⟨"ä", "'\\é'", false⟩]] := by decide +kernel
  obtain ⟨hchecked, hplaces, hbodies, -⟩ := styleBlocks_safe css
  obtain ⟨hfollows, hforward⟩ := hplaces s hs
  have hskip := hfollows.skipBlock
  have hvalid := (hforward 'a' [] 0 s.skipBlock.2 (by simp)).2.1
  obtain ⟨before, after, htext, hbefore⟩ := hbodies _ hbody
  rw [hblock] at hskip hvalid
  exact ⟨hblocks ▸ hchecked, ⟨hs, hskip, hvalid⟩, hbody, before, after, htext, hbefore.symm⟩

end Written

end StyleCheck.Style
