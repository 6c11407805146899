import StyleCheck.Proofs.Selector.Counting

/-!
# Escapes in the names of a selector

A backslash takes the next character into a name. The pass that reads the parts of a text follows
this, the pass that cuts the text into parts does not. Main statement: escapes may be written as
plain letters without a change of the weight, where the escaped characters mean nothing to the pass
that cuts.
-/

namespace StyleCheck.Selector

open Grammar Weigh

namespace Extended

/-! ### Escapes -/

/-- A character of a name or an escape, which is one of those replaced or not. -/
inductive Piece
  | char (c : NameChar)
  | escape (c : Char) (notNewline : c ≠ '\n') (marked : Bool)

namespace Piece

/-- The character behind a backslash. -/
def escaped? : Piece → Option Char
  | char _ => none
  | escape c _ _ => some c

/-- The text of a piece: where escapes are replaced, two letters stand for a marked one. -/
def spelled (replace : Bool) : Piece → List Char
  | char c => [c.char]
  | escape c _ marked => if replace && marked then ['x', 'x'] else ['\\', c]

end Piece

/-- All white space between compounds is ASCII. -/
def Chain.AsciiSpaces {P : Type} (s : Chain P) : Prop :=
  ∀ o ∈ s.others, ∀ c ∈ o.1.spaces, c.toNat < 128

variable {replace : Bool} {p : Piece} {name : List Char} {Q : Char → Prop}

theorem Piece.reads_spelled (replace : Bool) (p : Piece) : Reads (spelled replace) p := by
  intro x
  cases p with
  | char c => exact spanName_cons c.isNameChar
  | escape c notNewline marked =>
    rw [spelled]
    split
    · rw [List.cons_append, List.singleton_append, spanName_cons (by decide),
        spanName_cons (by decide)]
      rfl
    · rw [List.cons_append, List.singleton_append, spanName]
      rfl

/-- A property of the characters of names, of backslashes and of what is escaped holds of every
character that spells a piece. -/
theorem Piece.forall_spelled (hchar : ∀ c : NameChar, Q c.char) (hslash : Q '\\')
    (hp : ∀ c ∈ p.escaped?, Q c) : ∀ c ∈ p.spelled replace, Q c := by
  cases p with
  | char c => exact List.forall_mem_singleton.mpr (hchar c)
  | escape c notNewline marked =>
    have hletter : Q 'x' := hchar ⟨'x', .inl (by decide), by decide⟩
    rw [spelled]
    split
    · simpa using hletter
    · simpa using ⟨hslash, hp c rfl⟩

/-! ### Names with escapes -/

-- None of the names that are told apart holds a backslash or an x.
private theorem not_mem_of_lower_mem {c : Char} {names : List String} (hc : c = '\\' ∨ c = 'x')
    (hnames : ∀ n ∈ names, '\\' ∉ n.toList ∧ 'x' ∉ n.toList)
    (h : Text.lower (String.ofList name) ∈ names) : c ∉ name := by
  intro hmem
  have hlower : c ∈ (Text.lower (String.ofList name)).toList := by
    have hfixed : c.toLower = c := by
      rcases hc with rfl | rfl <;> rfl
    rw [Text.lower, String.toList_ofList, String.toList_ofList, ← hfixed]
    exact List.mem_map_of_mem hmem
  rcases hc with rfl | rfl
  · exact (hnames _ h).1 hlower
  · exact (hnames _ h).2 hlower

private theorem isOldElement_of_mem {c : Char} (hc : c = '\\' ∨ c = 'x') (h : c ∈ name) :
    isOldElement name = false := by
  rw [isOldElement, decide_eq_false_iff_not]
  exact fun hold ↦ not_mem_of_lower_mem hc (by decide) hold h

private theorem isWhere_of_mem {c : Char} (hc : c = '\\' ∨ c = 'x') (h : c ∈ name) :
    isWhere name = false := by
  rw [isWhere, decide_eq_false_iff_not]
  intro hwhere
  have hnames : ∀ n ∈ ["where"], '\\' ∉ n.toList ∧ 'x' ∉ n.toList := by decide
  exact not_mem_of_lower_mem hc hnames (by rw [hwhere, List.mem_singleton]) h

/-- Either the two spellings of a name are one, or a backslash stands in the first and an x in the
second. -/
private theorem text_eq_or (pieces : List Piece) :
    pieces.flatMap (Piece.spelled false) = pieces.flatMap (Piece.spelled true) ∨
      '\\' ∈ pieces.flatMap (Piece.spelled false) ∧
        'x' ∈ pieces.flatMap (Piece.spelled true) := by
  induction pieces with
  | nil => exact .inl rfl
  | cons p pieces ih =>
    rw [List.flatMap_cons, List.flatMap_cons]
    rcases p with c | ⟨c, notNewline, _ | _⟩
    · exact ih.imp (congrArg _) (And.imp (List.mem_append_right _) (List.mem_append_right _))
    · exact ih.imp (congrArg _) (And.imp (List.mem_append_right _) (List.mem_append_right _))
    · exact .inr ⟨by simp [Piece.spelled], by simp [Piece.spelled]⟩

private theorem Name.kinds_eq (n : Name Piece) :
    isOldElement (n.text (Piece.spelled false)) = isOldElement (n.text (Piece.spelled true)) ∧
      isWhere (n.text (Piece.spelled false)) = isWhere (n.text (Piece.spelled true)) := by
  rw [Name.text, Name.text]
  rcases text_eq_or n.rest with h | ⟨hslash, hletter⟩
  · rw [h]
    exact ⟨rfl, rfl⟩
  · have hslash := List.mem_cons_of_mem n.first.char hslash
    have hletter := List.mem_cons_of_mem n.first.char hletter
    rw [isOldElement_of_mem (.inl rfl) hslash, isOldElement_of_mem (.inr rfl) hletter,
      isWhere_of_mem (.inl rfl) hslash, isWhere_of_mem (.inr rfl) hletter]
    exact ⟨rfl, rfl⟩

private theorem Condition.isClass_eq :
    Condition.isClass (Piece.spelled false) = Condition.isClass (Piece.spelled true) := by
  funext c
  cases c with
  | pseudoClass name arguments => simp only [isClass, name.kinds_eq]
  | _ => rfl

private theorem Condition.isElement_eq :
    Condition.isElement (Piece.spelled false) = Condition.isElement (Piece.spelled true) := by
  funext c
  cases c with
  | pseudoClass name arguments => simp only [isElement, name.kinds_eq]
  | _ => rfl

theorem Chain.counts_eq (s : Chain Piece) :
    s.counts (Piece.spelled false) = s.counts (Piece.spelled true) := by
  rw [counts, counts, Condition.isClass_eq, Condition.isElement_eq]

end Extended

open Extended

/-- Letters may stand for escapes outside brackets, where no quotation mark and no white space is
escaped, and an opening bracket only if all white space is ASCII. In brackets they may stand for
those that leave every quotation mark and every bracket closed. The weight is the number of ids, of
classes and of types in either spelling. -/
theorem weigh_escapes {s : Chain Piece}
    (houtside : ∀ p ∈ s.pieces, ∀ c ∈ p.escaped?, Loose s.AsciiSpaces c)
    (hinside : ∀ n ∈ s.enclosedNames, ∀ replace, Enclosed (n.text (Piece.spelled replace))) :
    weigh (String.ofList (s.text (Piece.spelled true))) =
        weigh (String.ofList (s.text (Piece.spelled false))) ∧
      weigh (String.ofList (s.text (Piece.spelled false))) = s.counts (Piece.spelled false) := by
  have hslash : Loose s.AsciiSpaces '\\' := by
    simp [Loose]
    decide
  have hspelled (replace : Bool) :
      ∀ c ∈ s.compounds, c.Spelled (Piece.spelled replace) s.AsciiSpaces := by
    intro c hc
    refine ⟨fun p _ ↦ p.reads_spelled replace, fun p hp ↦ ?_, fun n hn ↦ ?_⟩
    · exact Piece.forall_spelled NameChar.loose hslash (houtside p (List.mem_flatMap_of_mem hc hp))
    · exact hinside n (List.mem_flatMap_of_mem hc hn) replace
  rw [weigh_text (hspelled true) id, weigh_text (hspelled false) id, s.counts_eq]
  exact ⟨rfl, rfl⟩

/-- Brackets behind backslashes: an open one outside a group, a closed pair in it. -/
theorem weigh_escaped_brackets :
    weigh ".wxx x:is(.bxxxx)" = weigh ".w\\[ x:is(.b\\(\\))" ∧
      weigh ".w\\[ x:is(.b\\(\\))" = ⟨0, 2, 1⟩ := by
  let escape (c : Char) (h : c ≠ '\n') : Piece := .escape c h true
  let w : Name Piece := ⟨⟨'w', by decide, by decide⟩, [escape '[' (by decide)]⟩
  let b : Name Piece :=
    ⟨⟨'b', by decide, by decide⟩, [escape '(' (by decide), escape ')' (by decide)]⟩
  let x : Name Piece := ⟨⟨'x', by decide, by decide⟩, []⟩
  let letter : Piece := .char ⟨'s', by decide, by decide⟩
  let is : Name Piece := ⟨⟨'i', by decide, by decide⟩, [letter]⟩
  let s : Chain Piece := ⟨⟨none, [.className w]⟩,
    [(.space ' ' [] (by simp [Spaces]; decide), ⟨some (.typeName x (by decide)),
      [.pseudoClass is (some (.char '.' (by simp [Plain]) (.name b .nil)))]⟩)]⟩
  have hspaces : s.AsciiSpaces := by
    simp [s, Chain.AsciiSpaces, Join.spaces]
  have houtside : ∀ p ∈ s.pieces, ∀ c ∈ p.escaped?, Loose s.AsciiSpaces c := by
    have hbracket : Loose s.AsciiSpaces '[' := ⟨by decide, by decide, fun _ ↦ hspaces⟩
    have hpieces : s.pieces = [escape '[' (by decide), letter] := rfl
    rw [hpieces]
    simpa [escape, letter, Piece.escaped?] using hbracket
  have hinside : ∀ n ∈ s.enclosedNames, ∀ replace, Enclosed (n.text (Piece.spelled replace)) := by
    have hb : Plain 'b' := by simp [Plain]
    have hx : Plain 'x' := by simp [Plain]
    have hslash : Plain '\\' := by simp [Plain]
    refine List.forall_mem_singleton.mpr fun replace ↦ ?_
    cases replace with
    | false => exact .plain hb (.plain hslash (.group .round (.plain hslash .nil) .nil))
    | true => exact .plain hb (.plain hx (.plain hx (.plain hx (.plain hx .nil))))
  have hwritten : String.ofList (s.text (Piece.spelled false)) = ".w\\[ x:is(.b\\(\\))" := by
    decide +kernel
  have hreplaced : String.ofList (s.text (Piece.spelled true)) = ".wxx x:is(.bxxxx)" := by
    decide +kernel
  have hcounts : s.counts (Piece.spelled false) = ⟨0, 2, 1⟩ := by decide +kernel
  rw [← hwritten, ← hreplaced, ← hcounts]
  exact weigh_escapes houtside hinside

/-- White space behind a backslash ends the part all the same, and a quotation mark begins a string,
at the end of which white space ends the part: what follows counts as a type. -/
theorem weigh_escaped_space :
    weigh ".a\\ b" = ⟨0, 1, 1⟩ ∧ weigh ".axxb" = ⟨0, 1, 0⟩ ∧
      weigh ".a\\'b[c='x y']" = ⟨0, 2, 1⟩ ∧ weigh ".axxb[c='x y']" = ⟨0, 2, 0⟩ := by
  decide +kernel

end StyleCheck.Selector
