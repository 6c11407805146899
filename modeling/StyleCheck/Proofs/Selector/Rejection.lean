import Mathlib.Control.Monad.Basic
import StyleCheck.Proofs.Selector.Lookahead
import StyleCheck.Proofs.Selector.Recursion

/-!
# Rejected selectors

A rejected text is reported at the end of the longest text in front that goes on to a selector.
Every error lies behind a text that does; and where all errors lie in front of a place, the parse
fails alike whatever stands behind it, so that nothing up to there goes on to a selector.
-/

namespace StyleCheck.Selector

open Grammar

/-! ### The end of a selector -/

/-- Selectors of the plain grammar and nothing but whitespace behind them. -/
def Grammar.IsWholeText (cs : List Char) : Prop :=
  ∃ ds ws, cs = ds ++ ws ∧ IsComplexText ds ∧ Spaces ws

namespace Production

variable {p p' : Parse} {q : Position} {cs : List Char}

/-- Nothing, where no character is left. -/
private def ended : Production Unit := fun p ↦
  match p.cursor.peek with
  | some t => .error ⟨.trailing t.kind, t.position⟩ p
  | none => .ok () p

/-- A selector of at most `depth` compounds and nothing but whitespace behind it. -/
def wholeWithin (depth : Nat) : Production Complex := do
  let s ← complexWithin depth
  space
  ended
  return s

private theorem wholeSelector_eq {depth : Nat} (hat : p.cursor.At q cs) (hlt : cs.length < depth) :
    wholeSelector p = wholeWithin depth p := by
  have hcomplex : complex p = complexWithin depth p := by
    have hremaining := hat.remaining
    rw [complex]
    exact complexWithin_eq hat (by omega) (by omega)
  show wholeSelector p = EStateM.bind (complexWithin depth) _ p
  unfold wholeSelector EStateM.bind
  rw [hcomplex]
  cases complexWithin depth p with
  | error e p' => rfl
  | ok s p' =>
    show _ = EStateM.bind ended _ (p'.moveTo p'.cursor.skipSpace.2)
    simp only [EStateM.bind, ended, Cursor.expectEnd, Parse.moveTo]
    cases p'.cursor.skipSpace.2.peek <;> rfl

private theorem ended_of_at (hat : p.cursor.At q cs) :
    (cs = [] ∧ ended p = .ok () p) ∨
      ∃ x rest, cs = x :: rest ∧ ended p = .error ⟨.trailing (.ofChar x), q⟩ p := by
  cases cs with
  | nil => exact .inl ⟨rfl, by rw [ended, hat.peek_nil]⟩
  | cons x rest => exact .inr ⟨x, rest, rfl, by rw [ended, hat.peek_cons]⟩

private theorem reads_ended : Reads ended fun _ cs _ after ↦ cs = [] ∧ after = [] where
  ok {p p' q cs a} hat hok := by
    rcases ended_of_at hat with ⟨rfl, h⟩ | ⟨x, rest, rfl, h⟩
    · rw [h] at hok
      cases hok
      exact ⟨.refl _, [], [], rfl, hat, rfl, rfl⟩
    · rw [h] at hok
      cases hok
  error {p p' q cs e} hat herr := by
    rcases ended_of_at hat with ⟨rfl, h⟩ | ⟨x, rest, rfl, h⟩
    · rw [h] at herr
      cases herr
    · rw [h] at herr
      cases herr
      exact .refl _

private theorem fails_ended : Fails ended fun pre problem post ↦
    pre = [] ∧ ∃ x ∈ post.head?, problem = .trailing (.ofChar x) where
  ok {p p' q cs a} hs hok := by
    rcases ended_of_at hs.toAt with ⟨rfl, h⟩ | ⟨x, rest, rfl, h⟩
    · rw [h] at hok
      cases hok
      exact .refl _
    · rw [h] at hok
      cases hok
  error {p p' q cs e} hs herr := by
    rcases ended_of_at hs.toAt with ⟨rfl, h⟩ | ⟨x, rest, rfl, h⟩
    · rw [h] at herr
      cases herr
    · rw [h] at herr
      cases herr
      exact ⟨.refl _, [], x :: rest, rfl, rfl, rfl, x, rfl, rfl⟩

private theorem local_ended : Local ended := by
  refine local_of_head reads_ended fails_ended ?_
  intro p p' q x u r r' hs hs'
  rcases ended_of_at hs.toAt with ⟨⟨⟩, -⟩ | ⟨_, _, -, h⟩
  rcases ended_of_at hs'.toAt with ⟨⟨⟩, -⟩ | ⟨_, _, -, h'⟩
  rw [h, h']
  exact .error

private theorem local_wholeWithin (depth : Nat) : Local (wholeWithin depth) :=
  (local_complexWithin depth).bind fun _ ↦ local_space.bind fun _ ↦ local_ended.bind fun _ ↦
    local_pure _

/-- A whole text fails as its selector does, or with what stands behind selector and whitespace. -/
theorem Fails.wholeWithin {F : Fault} {depth : Nat} (h : Fails (complexWithin depth) F)
    (hend : ∀ ds ws x rest, IsComplexText ds → Spaces ws →
      F (ds ++ ws) (.trailing (.ofChar x)) (x :: rest)) : Fails (wholeWithin depth) F := by
  refine h.bind (reads_complexWithin depth) fun q ds s after hds ↦ ?_
  refine fails_space.bind reads_spaces fun q ws _ after hws ↦ ?_
  refine Fails.bind (fails_ended.mono ?_) reads_ended fun _ _ _ _ _ ↦ fails_pure _
  rintro _ problem post ⟨rfl, x, hx, rfl⟩
  obtain ⟨rest, rfl⟩ := List.head?_eq_some_iff.mp hx
  show F (ds ++ (ws ++ [])) _ _
  rw [List.append_nil]
  exact hend ds ws x rest hds.isComplexText hws

private theorem fails_wholeWithin (depth : Nat) :
    Fails (wholeWithin depth) (viable IsWholeText) := by
  have hcomplex : Fails (complexWithin depth) (viable IsWholeText) :=
    (fails_complexWithin depth).viable_after [] fun cs h ↦ ⟨[], cs, [], by simp, h, nofun⟩
  refine hcomplex.wholeWithin ?_
  intro ds ws x rest hds hws
  exact ⟨[], ds, ws, by simp, hds, hws⟩

end Production

/-! ### The reported error -/

/-- The text goes on to one that parses as a selector. -/
def Viable (cs : List Char) : Prop := ∃ rest s, parse (String.ofList (cs ++ rest)) = .ok s

theorem Viable.of_append {cs ds : List Char} (h : Viable (cs ++ ds)) : Viable cs := by
  obtain ⟨rest, s, hs⟩ := h
  exact ⟨ds ++ rest, s, by rwa [← List.append_assoc]⟩

/-- What goes on to a selector of the grammar goes on to one that parses. -/
private theorem viable_of_isWholeText {cs rest : List Char} (h : IsWholeText (cs ++ rest)) :
    Viable cs := by
  obtain ⟨ds, ws, htext, hds, hws⟩ := h
  obtain ⟨s, hs⟩ := hds .start
  have hselector : SelectorText anywhere (String.ofList (cs ++ rest)) s :=
    ⟨ds, ws, by simpa using htext, hs.toAnywhere ws, hws⟩
  obtain ⟨s', hs'⟩ := exists_longest_of_anywhere hselector
  exact ⟨rest, s', parse_eq_ok_iff.mpr hs'⟩

/-- The reported error ended the parse or is on the trail, and none of these is deeper. -/
private theorem exists_of_parse_error {text : String} {e : SyntaxError}
    (h : parse text = .error e) :
    ∃ e' p, Production.wholeSelector (.ofText text) = .error e' p ∧ (e = e' ∨ e ∈ p.trail) ∧
      e'.offset ≤ e.offset ∧ ∀ n, Production.Noted n p.trail → n ≤ e.offset := by
  unfold parse run at h
  cases hw : Production.wholeSelector (.ofText text) with
  | ok s p =>
    rw [hw] at h
    cases h
  | error e' p =>
    rw [hw] at h
    refine ⟨e', p, rfl, ?_⟩
    dsimp only at h
    unfold Production.Noted
    cases htrail : p.trail with
    | nil =>
      rw [htrail] at h
      cases h
      exact ⟨.inl rfl, Nat.le_refl _, by simp⟩
    | cons deepest rest =>
      rw [htrail] at h
      simp only [Except.error.injEq] at h
      simp only [List.head?_cons, Option.mem_some_iff, exists_eq_left']
      split at h
      · subst h
        exact ⟨.inr List.mem_cons_self, by omega, fun n hn ↦ hn⟩
      · subst h
        exact ⟨.inl rfl, Nat.le_refl _, fun n hn ↦ by omega⟩

section

variable {text : String} {e : SyntaxError} (h : parse text = .error e)
include h

/-- The reported error is one that the parse met. -/
theorem behind_of_parse_error {F : Production.Fault}
    (hF : Production.Fails (Production.wholeWithin (text.toList.length + 1)) F) :
    Production.Behind F .start text.toList e := by
  obtain ⟨e', p, hw, hmem, -, -⟩ := exists_of_parse_error h
  have hs := Cursor.stands_ofText text
  rw [Production.wholeSelector_eq hs.toAt (Nat.lt_succ_self _)] at hw
  obtain ⟨hmarks, hbehind⟩ := hF.error hs hw
  rcases hmem with rfl | hmem
  · exact hbehind
  · exact (hmarks.new e hmem).resolve_left (List.not_mem_nil)

/-- The text before the reported place is viable. -/
private theorem exists_viable_of_parse_error :
    ∃ pre post, text.toList = pre ++ post ∧ e.position = Position.start.advanceOver pre ∧
      Viable pre := by
  obtain ⟨pre, post, htext, hplace, rest, hrest⟩ :=
    behind_of_parse_error h (Production.fails_wholeWithin _)
  exact ⟨pre, post, htext, hplace, viable_of_isWholeText hrest⟩

/-- A viable text in front of a rejected one does not reach beyond the reported place. -/
private theorem length_le_of_viable {u r : List Char} (htext : text.toList = u ++ r)
    (hu : Viable u) : u.length ≤ e.offset := by
  obtain ⟨r', s, hs⟩ := hu
  obtain ⟨e', p, hw, -, hle, hnoted⟩ := exists_of_parse_error h
  obtain ⟨p', hp'⟩ := (Production.wholeSelector_ofText_iff _ s).mpr (parse_eq_ok_iff.mp hs)
  have hstands : (Parse.ofText text).cursor.Stands .start (u ++ r) :=
    htext ▸ Cursor.stands_ofText text
  have hstands' : (Parse.ofText (String.ofList (u ++ r'))).cursor.Stands .start (u ++ r') := by
    have hstart := Cursor.stands_ofText (String.ofList (u ++ r'))
    rwa [String.toList_ofList] at hstart
  -- Deep enough for both texts.
  let depth := (u ++ r ++ r').length + 1
  have hdepth : (u ++ r).length < depth := by
    simp only [depth, List.length_append]
    omega
  have hdepth' : (u ++ r').length < depth := by
    simp only [depth, List.length_append]
    omega
  rw [Production.wholeSelector_eq hstands.toAt hdepth] at hw
  rw [Production.wholeSelector_eq hstands'.toAt hdepth'] at hp'
  have hlocal := (Production.local_wholeWithin depth).agree _ _ _ _ _ _ hstands hstands'
  rw [hw, hp'] at hlocal
  rcases hlocal with (hfar | hfar) | hagree
  · rw [show Position.start.offset = 0 from rfl, Nat.zero_add] at hfar
    exact Nat.le_trans hfar hle
  · rw [show Position.start.offset = 0 from rfl, Nat.zero_add] at hfar
    exact hnoted _ hfar
  · cases hagree

end

/-- The error of a rejected text lies at the end of the longest text in front that goes on to one
that parses, and its place is the one reached over that text. -/
theorem parse_error_at_longest_viable {text : String} {e : SyntaxError}
    (h : parse text = .error e) :
    e.offset ≤ text.length ∧
      (∀ n ≤ text.length, Viable (text.toList.take n) ↔ n ≤ e.offset) ∧
      e.position = Position.start.advanceOver (text.toList.take e.offset) := by
  obtain ⟨pre, post, htext, hplace, hviable⟩ := exists_viable_of_parse_error h
  have hoffset : e.offset = pre.length := by
    rw [Located.offset, hplace, Position.offset_advanceOver]
    exact Nat.zero_add _
  have hlength : text.length = pre.length + post.length := by
    rw [← String.length_toList, htext, List.length_append]
  refine ⟨by omega, ?_, ?_⟩
  · intro n hn
    constructor
    · intro hv
      have hle := length_le_of_viable h (List.take_append_drop n text.toList).symm hv
      rw [List.length_take, String.length_toList] at hle
      omega
    · intro hle
      rw [htext, List.take_append_of_le_length (by omega)]
      rw [← List.take_append_drop n pre] at hviable
      exact hviable.of_append
  · rw [hplace, hoffset, htext, List.take_left]

/-- The second period on the second line ends what goes on to a selector. -/
theorem parse_error_on_second_line :
    parse "a >\n b..c" = .error ⟨.unexpected [.letter] (some .period), ⟨2, 4, 7⟩⟩ ∧
      ∀ n ≤ "a >\n b..c".length, Viable ("a >\n b..c".toList.take n) ↔ n ≤ 7 := by
  have h : parse "a >\n b..c" = .error ⟨.unexpected [.letter] (some .period), ⟨2, 4, 7⟩⟩ := by
    decide +kernel
  exact ⟨h, (parse_error_at_longest_viable h).2.1⟩

end StyleCheck.Selector
