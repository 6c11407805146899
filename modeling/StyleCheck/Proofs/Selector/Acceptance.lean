import StyleCheck.Proofs.Selector.Grammar
import StyleCheck.Proofs.Selector.Reading

/-!
# Accepted selectors

Every production of the selector parser reads texts of its own production in the grammar, with
longest names, and accepts each of them. Main statement: the parser accepts the grammar and gives
each text the selector that the grammar gives it.
-/

namespace StyleCheck.Selector

open Grammar

/-! ### Kinds of characters -/

namespace Kind

/-- The character of a kind that has one only. -/
def char? : Kind → Option Char
  | .minus => '-'
  | .underscore => '_'
  | .hash => '#'
  | .period => '.'
  | .leftBracket => '['
  | .rightBracket => ']'
  | .leftParen => '('
  | .rightParen => ')'
  | .colon => ':'
  | .asterisk => '*'
  | .equals => '='
  | .tilde => '~'
  | .leftAngle => '>'
  | .rightAngle => '<'
  | .dollar => '$'
  | .caret => '^'
  | .pipe => '|'
  | .comma => ','
  | .plus => '+'
  | .letter | .digit | .whitespace | .quote | .other => none

/-- What a kind says of a character. -/
def Describes (c : Char) : Kind → Prop
  | .letter => c.isAlpha
  | .digit => c.isDigit
  | .whitespace => Text.isSpace c
  | .quote => IsQuote c
  | .other => True
  | k => k.char? = some c

/-- A character is as its kind says. -/
theorem describes_ofChar (c : Char) : (ofChar c).Describes c := by
  unfold ofChar
  split
  · assumption
  · split
    · assumption
    · split
      · assumption
      · split <;> simp [Describes, char?, IsQuote]

theorem ofChar_of_isAlpha {c : Char} (h : c.isAlpha) : ofChar c = .letter := by
  unfold ofChar
  rw [if_pos h]

theorem ofChar_of_isDigit {c : Char} (h : c.isDigit) : ofChar c = .digit := by
  have hn : ¬ c.isAlpha := by rw [isAlpha_iff]; rw [isDigit_iff] at h; omega
  unfold ofChar
  rw [if_neg hn, if_pos h]

theorem ofChar_of_isSpace {c : Char} (h : Text.isSpace c) : ofChar c = .whitespace := by
  have hs := toNat_of_isSpace h
  have hn : ¬ c.isAlpha := by rw [isAlpha_iff]; omega
  have hd : ¬ c.isDigit := by rw [isDigit_iff]; omega
  unfold ofChar
  rw [if_neg hn, if_neg hd, if_pos h]

/-- What a character's kind says holds of the character. -/
theorem describes_of_ofChar_eq {c : Char} {k : Kind} (h : ofChar c = k) : k.Describes c :=
  h ▸ describes_ofChar c

theorem ofChar_eq_letter {c : Char} : ofChar c = .letter ↔ c.isAlpha :=
  ⟨fun h ↦ describes_of_ofChar_eq h, ofChar_of_isAlpha⟩

theorem ofChar_eq_digit {c : Char} : ofChar c = .digit ↔ c.isDigit :=
  ⟨fun h ↦ describes_of_ofChar_eq h, ofChar_of_isDigit⟩

theorem ofChar_eq_whitespace {c : Char} : ofChar c = .whitespace ↔ Text.isSpace c :=
  ⟨fun h ↦ describes_of_ofChar_eq h, ofChar_of_isSpace⟩

theorem ofChar_eq_quote {c : Char} : ofChar c = .quote ↔ IsQuote c := by
  refine ⟨fun h ↦ describes_of_ofChar_eq h, ?_⟩
  rintro (rfl | rfl) <;> rfl

/-- A kind of one character stands for that character. -/
theorem ofChar_eq_iff {k : Kind} {c d : Char} (h : k.char? = some d) : ofChar c = k ↔ c = d := by
  constructor
  · intro hc
    have hd := describes_of_ofChar_eq hc
    have hk : k.char? = some c := by
      cases k with
      | letter | digit | whitespace | quote | other => cases h
      | _ => exact hd
    exact Option.some.inj (hk.symm.trans h)
  · rintro rfl
    cases k <;> cases h <;> rfl

end Kind

/-! ### Names -/

namespace Production

variable {q : Position} {cs after : List Char}

theorem mem_nameKinds {c : Char} : .ofChar c ∈ nameKinds ↔ continuesName c := by
  simp only [nameKinds, List.mem_cons, List.not_mem_nil, or_false, Kind.ofChar_eq_letter,
    Kind.ofChar_eq_digit, Kind.ofChar_eq_iff (k := .minus) rfl,
    Kind.ofChar_eq_iff (k := .underscore) rfl, continuesName, Bool.or_eq_true, beq_iff_eq, or_assoc]

theorem reads_name :
    Reads name fun _ cs n after ↦ NameText longest cs after ∧ n = String.ofList cs := by
  have h := (reads_expect [.letter]).bind fun first ↦ (reads_run nameKinds).bind fun rest ↦
    Reads.pure (String.ofList (first.char :: rest.map Token.char))
  refine h.mono ?_
  rintro q _ n after ⟨_, _, first, rfl, ⟨x, hx, rfl, rfl⟩, cs, _, ts, rfl, ⟨rfl, hc, hn⟩, rfl, rfl⟩
  have hx : x.isAlpha := Kind.ofChar_eq_letter.mp (List.mem_singleton.mp hx)
  have hc : ∀ d ∈ cs, continuesName d := fun d hd ↦ mem_nameKinds.mp (hc d hd)
  have hn : longest after := by
    intro d hd
    simpa using mt mem_nameKinds.mpr (hn d hd)
  simp only [List.append_nil, List.singleton_append, Cursor.map_char_tokensFrom]
  exact ⟨.name hx hc hn, trivial⟩

theorem accepts_name (h : NameText longest cs after) :
    Accepts name q cs (String.ofList cs) after := by
  obtain @⟨x, cs, _, first, more, stop⟩ := h
  have hn : ∀ d ∈ after.head?, .ofChar d ∉ nameKinds := by
    intro d hd
    simp [mem_nameKinds, stop d hd]
  have hrun := accepts_run (q := q.advance x) (fun d hd ↦ mem_nameKinds.mpr (more d hd)) hn
  have hrest := hrun.bind_pure (f := fun rest ↦ String.ofList (x :: rest.map Token.char))
  rw [Cursor.map_char_tokensFrom] at hrest
  exact .bind [x] cs rfl
    (accepts_expect (List.mem_singleton.mpr (Kind.ofChar_of_isAlpha first))) hrest

theorem refuses_name (h : ∀ x ∈ cs.head?, ¬ x.isAlpha) : Refuses name cs :=
  (refuses_expect (by simpa [Kind.ofChar_eq_letter] using h)).bind

section

variable {k : Kind} {d : Char} (hk : k.char? = some d) (f : String → Simple)
include hk

private theorem reads_marked :
    Reads (do let _ ← expect [k]; return f (← name)) fun _ cs s after ↦
      ∃ ds, cs = d :: ds ∧ NameText longest ds after ∧ s = f (String.ofList ds) := by
  have h := (reads_expect [k]).bind fun _ ↦ reads_name.bind fun n ↦ Reads.pure (f n)
  refine h.mono ?_
  rintro q _ s after ⟨_, _, _, rfl, ⟨x, hx, rfl, rfl⟩, ds, _, _, rfl, ⟨hn, rfl⟩, rfl, rfl⟩
  have hx : x = d := (Kind.ofChar_eq_iff hk).mp (List.mem_singleton.mp hx)
  exact ⟨ds, by simp [hx], by simpa using hn, rfl⟩

private theorem accepts_marked (h : NameText longest cs after) :
    Accepts (do let _ ← expect [k]; return f (← name)) q (d :: cs) (f (String.ofList cs)) after :=
  .bind [d] cs rfl (accepts_expect (List.mem_singleton.mpr ((Kind.ofChar_eq_iff hk).mpr rfl)))
    (accepts_name h).bind_pure

end

theorem reads_idName : Reads idName fun _ cs s after ↦ SimpleText longest cs s after :=
  (reads_marked (k := .hash) rfl Simple.idName).mono fun _ _ _ _ ⟨_, hcs, hn, hs⟩ ↦
    hcs ▸ hs ▸ .idName hn

theorem reads_className : Reads className fun _ cs s after ↦ SimpleText longest cs s after :=
  (reads_marked (k := .period) rfl Simple.className).mono fun _ _ _ _ ⟨_, hcs, hn, hs⟩ ↦
    hcs ▸ hs ▸ .className hn

/-! ### Attribute conditions -/

private theorem took_closeQuote {quote : Char} {p p' : Parse} {r : List Char}
    (hat : p.cursor.At q cs) (hok : closeQuote quote p = .ok r p') :
    Took (fun _ cs r _ ↦ ∃ inner, IsQuote quote ∧ quote ∉ inner ∧ cs = inner ++ [quote] ∧ r = cs)
      p.cursor q cs r p'.cursor := by
  fun_induction closeQuote quote p generalizing q cs r with
  | case1 p _ => cases hok
  | case2 p t c hc hq =>
    cases hok
    obtain ⟨x, rest, rfl, rfl, hkeeps, hat'⟩ := hat.of_consume hc
    exact ⟨hkeeps, [x], rest, rfl, hat', [], hq.2 ▸ Kind.ofChar_eq_quote.mp hq.1, by simp,
      congrArg (fun y ↦ [y]) hq.2, rfl⟩
  | case3 p t c hc hq r' p'' hrest ih =>
    cases hok
    obtain ⟨x, rest, rfl, rfl, hkeeps, hat'⟩ := hat.of_consume hc
    obtain ⟨hkeeps', pre, post, rfl, hat'', inner, hquote, hin, rfl, rfl⟩ := ih hat' hrest
    refine ⟨hkeeps.trans hkeeps', x :: (inner ++ [quote]), post, rfl, hat'', x :: inner,
      hquote, ?_, rfl, rfl⟩
    rintro (_ | ⟨_, hmem⟩)
    · exact hq ⟨Kind.ofChar_eq_quote.mpr hquote, rfl⟩
    · exact hin hmem
  | case4 p t c hc hq e p'' hrest ih => cases hok

private theorem keeps_of_closeQuote_error {quote : Char} {p p' : Parse} {e : SyntaxError}
    (hat : p.cursor.At q cs) (herr : closeQuote quote p = .error e p') :
    p.cursor.Keeps p'.cursor := by
  fun_induction closeQuote quote p generalizing q cs with
  | case1 p _ =>
    cases herr
    exact .refl _
  | case2 p t c hc hq => cases herr
  | case3 p t c hc hq r' p'' hrest ih => cases herr
  | case4 p t c hc hq e' p'' hrest ih =>
    cases herr
    obtain ⟨x, rest, rfl, rfl, hkeeps, hat'⟩ := hat.of_consume hc
    exact hkeeps.trans (ih hat' hrest)

theorem reads_closeQuote (quote : Char) :
    Reads (closeQuote quote) fun _ cs r _ ↦
      ∃ inner, IsQuote quote ∧ quote ∉ inner ∧ cs = inner ++ [quote] ∧ r = cs where
  ok hat hok := took_closeQuote hat hok
  error hat herr := keeps_of_closeQuote_error hat herr

/-- One character of a string: it closes the string, or the rest of the string follows it. -/
private theorem closeQuote_of_consume {quote : Char} {p : Parse} {t : Token} {c : Cursor}
    (h : p.cursor.consume = some (t, c)) :
    closeQuote quote p =
      if t.kind = .quote ∧ t.char = quote then .ok [t.char] (p.moveTo c)
      else (List.cons t.char <$> closeQuote quote) (p.moveTo c) := by
  rw [closeQuote]
  split
  · next hnone =>
    rw [h] at hnone
    cases hnone
  · next t' c' hsome =>
    rw [h] at hsome
    cases hsome
    show _ = if _ then _ else EStateM.map _ _ _
    rw [EStateM.map]
    cases closeQuote quote (p.moveTo c) <;> rfl

theorem accepts_closeQuote {quote : Char} {inner : List Char} (hquote : IsQuote quote)
    (hin : quote ∉ inner) :
    Accepts (closeQuote quote) q (inner ++ [quote]) (inner ++ [quote]) after := by
  induction inner generalizing q with
  | nil =>
    intro p hat
    obtain ⟨d, hd, hkeeps, hat'⟩ := hat.consume_cons
    refine ⟨p.moveTo d, ?_, hkeeps, hat'⟩
    rw [closeQuote_of_consume hd, if_pos ⟨Kind.ofChar_eq_quote.mpr hquote, rfl⟩]
    rfl
  | cons x inner ih =>
    intro p hat
    obtain ⟨d, hd, hkeeps, hat'⟩ := hat.consume_cons
    obtain ⟨hx, hin'⟩ := not_or.mp (mt List.mem_cons.mpr hin)
    obtain ⟨p', hp', hkeeps', hat''⟩ := (ih hin').map (p.moveTo d) hat'
    refine ⟨p', ?_, hkeeps.trans hkeeps', hat''⟩
    rw [closeQuote_of_consume hd, if_neg fun hcloses ↦ hx hcloses.2.symm]
    exact hp'

theorem reads_literal : Reads literal fun _ cs l after ↦
    ValueText longest cs (.literal l) after := by
  have h := (reads_expect [.quote]).bind fun opening ↦ (reads_closeQuote opening.char).bind
    fun rest ↦ Reads.pure (String.ofList (opening.char :: rest))
  refine h.mono ?_
  rintro q _ v after ⟨_, _, _, rfl, ⟨x, -, rfl, rfl⟩, _, _, _, rfl,
    ⟨inner, hquote, hin, rfl, rfl⟩, rfl, rfl⟩
  simpa using ValueText.literal hquote hin

theorem reads_attributeValue :
    Reads attributeValue fun _ cs v after ↦ ValueText longest cs v after := by
  refine reads_oneOf (List.forall_mem_cons.mpr ⟨?_, List.forall_mem_singleton.mpr ?_⟩)
  · refine reads_literal.map.mono ?_
    rintro q cs v after ⟨_, hl, rfl⟩
    exact hl
  · refine reads_name.map.mono ?_
    rintro q cs v after ⟨_, ⟨hn, rfl⟩, rfl⟩
    exact .bare hn

theorem accepts_attributeValue {v : AttributeValue} (h : ValueText longest cs v after) :
    Accepts attributeValue q cs v after := by
  cases h with
  | @literal quote inner _ hquote hin =>
    have hopens := List.mem_singleton.mpr (Kind.ofChar_eq_quote.mpr hquote)
    refine accepts_oneOf [] (by simp) (Accepts.map ?_)
    exact .bind [quote] (inner ++ [quote]) rfl (accepts_expect hopens)
      (accepts_closeQuote hquote hin).bind_pure
  | bare hn =>
    refine accepts_oneOf [_] (List.forall_mem_singleton.mpr ?_) (accepts_name hn).map
    obtain ⟨first, -, -⟩ := hn
    refine (Refuses.bind (refuses_expect ?_)).map
    simp [Kind.ofChar_of_isAlpha first]

private theorem accepts_spaces (hs : Spaces cs) (hn : ∀ x ∈ after.head?, ¬ Text.isSpace x) :
    Accepts space q cs () after :=
  accepts_space (fun x hx ↦ Kind.ofChar_of_isSpace (hs x hx))
    (fun x hx hk ↦ hn x hx (Kind.ofChar_eq_whitespace.mp hk))

theorem reads_spaces : Reads space fun _ cs _ _ ↦ Spaces cs :=
  reads_space.mono fun _ _ _ _ h x hx ↦ Kind.ofChar_eq_whitespace.mp (h x hx)

/-- The comparison meant by a sign is the one that is written with it. -/
theorem text_of_ofSign? {k : Option Kind} {comparison : Comparison}
    (h : Comparison.ofSign? k = some comparison) :
    comparison.text.toList = (k.bind Kind.char?).toList ++ ['='] := by
  rcases k with _ | k
  · cases h
    rfl
  · cases k <;> cases h <;> rfl

private theorem exists_sign (comparison : Comparison) :
    ∃ k : Option Kind, Comparison.ofSign? k = some comparison ∧ ∀ k' ∈ k, k' ∈ signKinds := by
  cases comparison
  · exact ⟨none, rfl, by simp⟩
  · exact ⟨some .tilde, rfl, by simp [signKinds]⟩
  · exact ⟨some .pipe, rfl, by simp [signKinds]⟩
  · exact ⟨some .caret, rfl, by simp [signKinds]⟩
  · exact ⟨some .dollar, rfl, by simp [signKinds]⟩
  · exact ⟨some .asterisk, rfl, by simp [signKinds]⟩

theorem char?_of_mem_signKinds {x : Char} (h : .ofChar x ∈ signKinds) :
    (Kind.ofChar x).char? = some x := by
  have hd := Kind.describes_ofChar x
  generalize Kind.ofChar x = k at h hd
  simp only [signKinds, List.mem_cons, List.not_mem_nil, or_false] at h
  rcases h with rfl | rfl | rfl | rfl | rfl <;> exact hd

-- What a comparison reads behind its sign.
theorem reads_compared (meant : Option Comparison) (e : SyntaxError) :
    Reads (match meant with
      | none => throw e
      | some comparison => do space; return (comparison, ← attributeValue))
    fun _ cs r after ↦ meant = some r.1 ∧ ∃ ws vs, cs = ws ++ vs ∧ Spaces ws ∧
      ValueText longest vs r.2 after := by
  cases meant with
  | none =>
    refine ⟨?_, ?_⟩
    · intro p p' q cs r _ hok
      cases hok
    · intro p p' q cs e _ herr
      cases herr
      exact .refl _
  | some comparison =>
    refine (reads_spaces.bind fun _ ↦ reads_attributeValue.bind fun v ↦
      Reads.pure (comparison, v)).mono ?_
    rintro q _ _ after ⟨ws, _, _, rfl, hws, vs, _, _, rfl, hv, rfl, rfl⟩
    exact ⟨rfl, ws, vs, by simp, hws, by simpa using hv⟩

theorem reads_comparison : Reads comparison fun _ cs r after ↦
    ∃ ws ws' vs, cs = ws ++ r.1.text.toList ++ ws' ++ vs ∧ Spaces ws ∧ Spaces ws' ∧
      ValueText longest vs r.2 after := by
  have h := reads_spaces.bind fun _ ↦ (reads_optionally signKinds).bind fun sign ↦
    (reads_expect [.equals]).bind fun equals ↦
      reads_compared (Comparison.ofSign? (sign.map Token.kind)) ⟨.unknownOperator, equals.position⟩
  refine h.mono ?_
  rintro q _ r after ⟨ws, _, _, rfl, hws, cs, _, sign, rfl, hsign, _, _, equals, rfl,
    ⟨x, hx, rfl, rfl⟩, hmeant, ws', vs, rfl, hws', hv⟩
  have hx : x = '=' := (Kind.ofChar_eq_iff rfl).mp (List.mem_singleton.mp hx)
  refine ⟨ws, ws', vs, ?_, hws, hws', hv⟩
  rw [text_of_ofSign? hmeant]
  rcases hsign with ⟨y, hy, rfl, rfl⟩ | ⟨rfl, rfl⟩
  · simp [char?_of_mem_signKinds hy, hx]
  · simp [hx]

private theorem accepts_sign {k : Option Kind} (hk : ∀ k' ∈ k, k' ∈ signKinds) :
    ∃ sign : Option Token, sign.map Token.kind = k ∧
      Accepts (optionally signKinds) q (k.bind Kind.char?).toList sign ('=' :: after) := by
  rcases k with _ | k
  · refine ⟨none, rfl, accepts_optionally_none ?_⟩
    simp only [List.head?_cons, Option.mem_some_iff, forall_eq']
    decide
  · have hk : k ∈ signKinds := hk k rfl
    obtain ⟨y, hy⟩ : ∃ y, k.char? = some y := by
      simp only [signKinds, List.mem_cons, List.not_mem_nil, or_false] at hk
      rcases hk with rfl | rfl | rfl | rfl | rfl <;> exact ⟨_, rfl⟩
    have hyk : .ofChar y = k := (Kind.ofChar_eq_iff hy).mpr rfl
    refine ⟨some ⟨.ofChar y, y, q⟩, by simp [hyk], ?_⟩
    simp only [Option.bind_some, hy, Option.toList_some]
    exact accepts_optionally_some (hyk ▸ hk)

private theorem not_isSpace_head_comparison {x : Char} {comparison : Comparison} {rest : List Char}
    (hx : x ∈ (comparison.text.toList ++ rest).head?) : ¬ Text.isSpace x := by
  cases comparison <;> cases hx <;> decide

private theorem not_isSpace_head_value {x : Char} {v : AttributeValue} {vs rest : List Char}
    (hv : ValueText longest vs v rest) (hx : x ∈ (vs ++ rest).head?) : ¬ Text.isSpace x := by
  cases hv with
  | literal hquote _ =>
    cases hx
    rcases hquote with rfl | rfl <;> decide
  | bare hn =>
    obtain ⟨first, -, -⟩ := hn
    cases hx
    intro hs
    simpa [continuesName_of_isAlpha first] using continuesName_of_isSpace hs

theorem accepts_comparison {ws ws' vs : List Char} {comparison : Comparison} {v : AttributeValue}
    (hws : Spaces ws) (hws' : Spaces ws') (hv : ValueText longest vs v after) :
    Accepts Production.comparison q (ws ++ comparison.text.toList ++ ws' ++ vs) (comparison, v)
      after := by
  obtain ⟨k, hk, hmem⟩ := exists_sign comparison
  have hbefore : Accepts space q ws () (comparison.text.toList ++ (ws' ++ vs) ++ after) := by
    refine accepts_spaces hws fun x hx ↦ ?_
    rw [List.append_assoc] at hx
    exact not_isSpace_head_comparison hx
  rw [text_of_ofSign? hk] at hbefore ⊢
  obtain ⟨sign, hsign, haccept⟩ := accepts_sign hmem
  refine .bind ws _ (by simp [List.append_assoc]) hbefore ?_
  refine .bind _ ('=' :: (ws' ++ vs)) (by simp) haccept ?_
  refine .bind ['='] (ws' ++ vs) rfl (accepts_expect (List.mem_singleton.mpr rfl)) ?_
  simp only [hsign, hk]
  exact .bind ws' vs rfl (accepts_spaces hws' fun x hx ↦ not_isSpace_head_value hv hx)
    (accepts_attributeValue hv).bind_pure

private theorem refuses_comparison : Refuses Production.comparison (']' :: after) := by
  have hspace (q : Position) : Accepts space q [] () (']' :: after) :=
    accepts_spaces (by simp [Spaces]) (by simp; decide)
  have hsign (q : Position) : Accepts (optionally signKinds) q [] none (']' :: after) :=
    accepts_optionally_none (by simp; decide)
  have hequals : Refuses (expect [.equals]) (']' :: after) := refuses_expect (by simp; decide)
  exact refuses_bind_of_accepts [] fun q ↦
    ⟨(), hspace q, refuses_bind_of_accepts [] fun q ↦ ⟨none, hsign q, hequals.bind⟩⟩

theorem reads_attributeTest :
    Reads attributeTest fun _ cs test after ↦ TestText longest cs test after := by
  have h := reads_name.bind fun n ↦ (reads_optional reads_comparison).bind fun found ↦
    Reads.pure (AttributeTest.mk n (found.map Prod.fst) (found.map Prod.snd))
  refine h.mono ?_
  rintro q _ test after ⟨cs, _, _, rfl, ⟨hn, rfl⟩, _, _, found, rfl, hfound, rfl, rfl⟩
  rcases hfound with ⟨⟨comparison, v⟩, rfl, ws, ws', vs, rfl, hws, hws', hv⟩ | ⟨rfl, rfl⟩
  · simp only [List.append_nil, List.nil_append] at hn hv ⊢
    exact .compared hn hws hws' hv
  · simp only [List.append_nil, List.nil_append] at hn ⊢
    exact .present hn

theorem accepts_attributeTest {test : AttributeTest}
    (h : TestText longest cs test (']' :: after)) :
    Accepts attributeTest q cs test (']' :: after) := by
  cases h with
  | present hn =>
    exact .bind cs [] (List.append_nil cs).symm (accepts_name hn)
      refuses_comparison.optional.bind_pure
  | @compared ns ws ws' vs _ comparison v hn hws hws' hv =>
    exact .bind ns _ rfl (accepts_name hn)
      (accepts_comparison hws hws' hv).optional.bind_pure

theorem reads_attributeCondition :
    Reads attributeCondition fun _ cs s after ↦ SimpleText longest cs s after := by
  have h := (reads_expect [.leftBracket]).bind fun _ ↦ reads_attributeTest.bind fun test ↦
    (reads_expect [.rightBracket]).bind fun _ ↦ Reads.pure (Simple.attr test)
  refine h.mono ?_
  rintro q _ s after ⟨_, _, _, rfl, ⟨x, hx, rfl, -⟩, cs, _, test, rfl, ht, _, _, _, rfl,
    ⟨y, hy, rfl, -⟩, rfl, rfl⟩
  have hx : x = '[' := (Kind.ofChar_eq_iff rfl).mp (List.mem_singleton.mp hx)
  have hy : y = ']' := (Kind.ofChar_eq_iff rfl).mp (List.mem_singleton.mp hy)
  subst hx hy
  simpa using SimpleText.attr (by simpa using ht)

theorem accepts_attributeCondition {test : AttributeTest}
    (h : TestText longest cs test (']' :: after)) :
    Accepts attributeCondition q ('[' :: (cs ++ [']'])) (.attr test) after :=
  .bind ['['] (cs ++ [']']) rfl
    (accepts_expect (List.mem_singleton.mpr rfl))
    (.bind cs [']'] rfl (accepts_attributeTest h)
      (accepts_expect (x := ']') (List.mem_singleton.mpr rfl)).bind_pure)

/-! ### Compounds -/

theorem reads_simple : Reads simple fun _ cs s after ↦ SimpleText longest cs s after := by
  refine reads_oneOf ?_
  simp only [List.forall_mem_cons, List.not_mem_nil, false_implies, implies_true, and_true]
  refine ⟨reads_idName, reads_className, reads_attributeCondition, ?_⟩
  refine reads_name.map.mono ?_
  rintro q cs s after ⟨_, ⟨hn, rfl⟩, rfl⟩
  exact .typeName hn

theorem refuses_simple (h : ∀ x ∈ cs.head?, ¬ StartsCondition x) : Refuses simple cs := by
  have hhead {k : Kind} {d : Char} (hk : k.char? = some d)
      (hd : ∀ x ∈ cs.head?, x ≠ d) : Refuses (expect [k]) cs := by
    refine refuses_expect fun x hx hm ↦ hd x hx ?_
    exact (Kind.ofChar_eq_iff hk).mp (List.mem_singleton.mp hm)
  refine refuses_oneOf ?_
  simp only [List.forall_mem_cons, List.not_mem_nil, false_implies, implies_true, and_true]
  refine ⟨(hhead (d := '#') rfl ?_).bind, (hhead (d := '.') rfl ?_).bind,
    (hhead (d := '[') rfl ?_).bind, (refuses_name ?_).map⟩
  · rintro x hx rfl
    exact h _ hx (.inl rfl)
  · rintro x hx rfl
    exact h _ hx (.inr (.inl rfl))
  · rintro x hx rfl
    exact h _ hx (.inr (.inr (.inl rfl)))
  · intro x hx ha
    exact h _ hx (.inr (.inr (.inr ha)))

theorem accepts_simple {s : Simple} (h : SimpleText longest cs s after) :
    Accepts simple q cs s after := by
  cases h with
  | idName hn => exact accepts_oneOf [] (by simp) (accepts_marked (k := .hash) rfl _ hn)
  | className hn =>
    refine accepts_oneOf [_] ?_ (accepts_marked (k := .period) rfl _ hn)
    simp only [List.forall_mem_singleton]
    exact (refuses_expect (by simp; decide)).bind
  | attr ht =>
    refine accepts_oneOf [_, _] ?_ (accepts_attributeCondition ht)
    simp only [List.forall_mem_cons, List.not_mem_nil, false_implies, implies_true, and_true]
    exact ⟨(refuses_expect (by simp; decide)).bind, (refuses_expect (by simp; decide)).bind⟩
  | typeName hn =>
    refine accepts_oneOf [_, _, _] ?_ (accepts_name hn).map
    obtain ⟨first, -, -⟩ := hn
    have hfirst := Kind.ofChar_of_isAlpha first
    simp only [List.forall_mem_cons, List.not_mem_nil, false_implies, implies_true, and_true]
    exact ⟨(refuses_expect (by simp [hfirst])).bind, (refuses_expect (by simp [hfirst])).bind,
      (refuses_expect (by simp [hfirst])).bind⟩

theorem compoundText_of_repeated {l : List Simple}
    (h : Repeated (fun _ cs s after ↦ SimpleText longest cs s after) q cs l after) :
    l = [] ∨ CompoundText longest cs l after := by
  induction h with
  | nil => exact .inl rfl
  | cons first others ih =>
    right
    rcases ih with rfl | h
    · cases others
      simpa using CompoundText.one (by simpa using first)
    · exact .more first h

theorem reads_compound :
    Reads compound fun _ cs c after ↦ CompoundText longest cs c.conditions after where
  ok {p p' q cs c} hat hok := by
    obtain ⟨l, hl, hkeeps, pre, post, rfl, hat', hr⟩ := reads_simple.many hat
    cases l with
    | nil => simp [compound, hl] at hok
    | cons s rest =>
      simp only [compound, hl, EStateM.Result.ok.injEq] at hok
      obtain ⟨rfl, rfl⟩ := hok
      refine ⟨hkeeps, pre, post, rfl, hat', ?_⟩
      exact (compoundText_of_repeated hr).resolve_left (List.cons_ne_nil s rest)
  error {p p' q cs e} hat herr := by
    obtain ⟨l, hl, hkeeps, -⟩ := reads_simple.many hat
    cases l with
    | nil =>
      simp only [compound, hl, EStateM.Result.error.injEq] at herr
      exact herr.2 ▸ hkeeps
    | cons s rest => simp [compound, hl] at herr

/-- A compound goes on as long as conditions follow. -/
theorem accepts_compound {l : List Simple} (h : CompoundText longest cs l after)
    (hn : ∀ x ∈ after.head?, ¬ StartsCondition x) : Accepts compound q cs ⟨l⟩ after := by
  have hrepeats : Repeats simple q cs l after := by
    induction h generalizing q with
    | @one cs after s hs =>
      obtain ⟨x, xs, rfl, -⟩ := hs.exists_cons
      rw [← List.append_nil (x :: xs)]
      exact (accepts_simple (by simpa using hs)).repeats (List.cons_ne_nil x xs)
        (refuses_simple hn).repeats
    | more hs _ ih =>
      obtain ⟨x, xs, rfl, -⟩ := hs.exists_cons
      exact (accepts_simple hs).repeats (List.cons_ne_nil x xs) (ih hn)
  obtain ⟨s, rest, rfl⟩ : ∃ s rest, l = s :: rest := by cases h <;> exact ⟨_, _, rfl⟩
  intro p hat
  obtain ⟨errors, p', hp, hkeeps, hat'⟩ := hrepeats p hat
  exact ⟨p', by simp [compound, hp], hkeeps, hat'⟩

theorem refuses_compound (h : ∀ x ∈ cs.head?, ¬ StartsCondition x) : Refuses compound cs := by
  intro p q hat
  obtain ⟨errors, p', hp, hkeeps, -⟩ := (refuses_simple h).repeats p hat
  exact ⟨(Located.deepest errors).getD ⟨.emptyCompound, p.cursor.place⟩, p',
    by simp [compound, hp], hkeeps⟩

/-! ### Selectors -/

theorem mem_combinatorKinds {c : Char} : .ofChar c ∈ combinatorKinds ↔ IsSign c := by
  simp only [combinatorKinds, List.mem_cons, List.not_mem_nil, or_false,
    Kind.ofChar_eq_iff (k := .leftAngle) rfl, Kind.ofChar_eq_iff (k := .plus) rfl,
    Kind.ofChar_eq_iff (k := .tilde) rfl, IsSign]

section

variable {right : Production Complex}

theorem reads_signJoin (hright : Reads right (ComplexText longest)) :
    Reads (signJoin right) (ComplexText longest) := by
  have h := reads_compound.bind fun left ↦ reads_spaces.bind fun _ ↦
    (reads_expect combinatorKinds).bind fun operator ↦ reads_spaces.bind fun _ ↦
      hright.bind fun r ↦ Reads.pure (Complex.joined operator left r)
  refine h.mono ?_
  rintro q _ s after ⟨cs, _, left, rfl, hleft, ws, _, _, rfl, hws, _, _, operator, rfl,
    ⟨op, hop, rfl, rfl⟩, ws', _, _, rfl, hws', ds, _, r, rfl, hr, rfl, rfl⟩
  simp only [List.append_nil, List.nil_append, List.append_assoc, List.cons_append,
    ← advanceOver_append] at hleft hr ⊢
  exact .sign (by simpa using hleft) hws (mem_combinatorKinds.mp hop) hws' (by simpa using hr)

theorem reads_spaceJoin (hright : Reads right (ComplexText longest)) :
    Reads (spaceJoin right) (ComplexText longest) := by
  have h := reads_compound.bind fun left ↦ (reads_expect [.whitespace]).bind fun operator ↦
    reads_spaces.bind fun _ ↦ hright.bind fun r ↦ Reads.pure (Complex.joined operator left r)
  refine h.mono ?_
  rintro q _ s after ⟨cs, _, left, rfl, hleft, _, _, operator, rfl, ⟨w, hw, rfl, rfl⟩,
    ws, _, _, rfl, hws, ds, _, r, rfl, hr, rfl, rfl⟩
  have hw : Text.isSpace w := Kind.ofChar_eq_whitespace.mp (List.mem_singleton.mp hw)
  simp only [List.append_nil, List.nil_append, List.append_assoc, List.cons_append,
    ← advanceOver_append] at hleft hr ⊢
  exact .space (by simpa using hleft) hw hws (by simpa using hr)

theorem reads_complexWithin (depth : Nat) :
    Reads (complexWithin depth) (ComplexText longest) := by
  induction depth with
  | zero =>
    refine ⟨?_, ?_⟩
    · intro p p' q cs s _ hok
      cases hok
    · intro p p' q cs e _ herr
      cases herr
      exact .refl _
  | succ depth ih =>
    refine reads_oneOf ?_
    simp only [List.forall_mem_cons, List.not_mem_nil, false_implies, implies_true, and_true]
    refine ⟨reads_signJoin ih, reads_spaceJoin ih, reads_compound.map.mono ?_⟩
    rintro q cs s after ⟨c, hc, rfl⟩
    exact .compound hc

theorem refuses_complexWithin (depth : Nat) : Refuses (complexWithin depth) [] := by
  cases depth with
  | zero => exact fun p q _ ↦ ⟨_, p, rfl, .refl _⟩
  | succ depth =>
    have h : Refuses compound [] := refuses_compound (by simp)
    refine refuses_oneOf ?_
    simp only [List.forall_mem_cons, List.not_mem_nil, false_implies, implies_true, and_true]
    exact ⟨h.bind, h.bind, h.map⟩

section

variable {ws ws' ds : List Char} {op w : Char} {l : List Simple} {r : Complex}

private theorem not_startsCondition_of_spaces (ds : List Char) (hws : Spaces ws)
    (hd : ∀ x ∈ ds.head?, ¬ StartsCondition x) :
    ∀ x ∈ (ws ++ ds).head?, ¬ StartsCondition x := by
  intro x hx hs
  cases ws with
  | nil => exact hd x hx hs
  | cons w ws =>
    cases hx
    exact hs.not_isSpace (hws x List.mem_cons_self)

private theorem accepts_signJoin (hc : CompoundText longest cs l (ws ++ op :: (ws' ++ ds) ++ after))
    (hws : Spaces ws) (hop : IsSign op) (hws' : Spaces ws')
    (hd : ∀ x ∈ (ds ++ after).head?, ¬ Text.isSpace x)
    (hr : Accepts right (q.advanceOver (cs ++ ws ++ op :: ws')) ds r after) :
    Accepts (signJoin right) q (cs ++ (ws ++ op :: (ws' ++ ds)))
      (.joined ⟨.ofChar op, op, q.advanceOver (cs ++ ws)⟩ ⟨l⟩ r) after := by
  have hleft : ∀ x ∈ (ws ++ op :: (ws' ++ ds) ++ after).head?, ¬ StartsCondition x := by
    rw [List.append_assoc]
    refine not_startsCondition_of_spaces _ hws ?_
    rintro x ⟨⟩ hs
    exact hs.not_isSign hop
  rw [advanceOver_append, advanceOver_append] at hr
  rw [advanceOver_append]
  refine .bind cs _ rfl (accepts_compound hc hleft) ?_
  refine .bind ws (op :: (ws' ++ ds)) rfl (accepts_spaces hws ?_) ?_
  · rintro x ⟨⟩
    exact hop.not_isSpace
  refine .bind [op] (ws' ++ ds) rfl (accepts_expect (mem_combinatorKinds.mpr hop)) ?_
  exact .bind ws' ds rfl (accepts_spaces hws' hd) hr.bind_pure

private theorem refuses_signJoin (right : Production Complex) (ds : List Char)
    (hc : CompoundText longest cs l (ws ++ ds))
    (hws : Spaces ws) (hs : ∀ x ∈ (ws ++ ds).head?, ¬ StartsCondition x)
    (hd : ∀ x ∈ ds.head?, ¬ Text.isSpace x ∧ ¬ IsSign x) :
    Refuses (signJoin right) (cs ++ (ws ++ ds)) := by
  have hspace (q : Position) : Accepts space q ws () ds :=
    accepts_spaces hws fun x hx ↦ (hd x hx).1
  have hsign : Refuses (expect combinatorKinds) ds :=
    refuses_expect fun x hx hm ↦ (hd x hx).2 (mem_combinatorKinds.mp hm)
  exact refuses_bind_of_accepts cs fun q ↦ ⟨_, accepts_compound hc hs,
    refuses_bind_of_accepts ws fun q ↦ ⟨(), hspace q, hsign.bind⟩⟩

private theorem accepts_spaceJoin (hc : CompoundText longest cs l (w :: (ws ++ ds) ++ after))
    (hw : Text.isSpace w) (hws : Spaces ws) (hd : ∀ x ∈ (ds ++ after).head?, ¬ Text.isSpace x)
    (hr : Accepts right (q.advanceOver (cs ++ w :: ws)) ds r after) :
    Accepts (spaceJoin right) q (cs ++ w :: (ws ++ ds))
      (.joined ⟨.ofChar w, w, q.advanceOver cs⟩ ⟨l⟩ r) after := by
  have hleft : ∀ x ∈ (w :: (ws ++ ds) ++ after).head?, ¬ StartsCondition x := by
    rintro x ⟨⟩ hs
    exact hs.not_isSpace hw
  rw [advanceOver_append] at hr
  have hkind := List.mem_singleton.mpr (Kind.ofChar_of_isSpace hw)
  refine .bind cs _ rfl (accepts_compound hc hleft) ?_
  refine .bind [w] (ws ++ ds) rfl (accepts_expect hkind) ?_
  exact .bind ws ds rfl (accepts_spaces hws hd) hr.bind_pure

-- With only whitespace behind the compound there is nothing for the right side to read.
private theorem refuses_spaceJoin (hc : CompoundText longest cs l after) (ha : Spaces after)
    (hright : Refuses right []) : Refuses (spaceJoin right) (cs ++ after) := by
  have hleft : ∀ x ∈ after.head?, ¬ StartsCondition x := by
    simpa using not_startsCondition_of_spaces [] ha (by simp)
  refine refuses_bind_of_accepts cs fun q ↦ ⟨_, accepts_compound hc hleft, ?_⟩
  cases after with
  | nil => exact (refuses_expect (by simp)).bind
  | cons w ws =>
    have hkind := List.mem_singleton.mpr (Kind.ofChar_of_isSpace (ha w List.mem_cons_self))
    have hws : Spaces ws := fun x hx ↦ ha x (List.mem_cons_of_mem w hx)
    have hspace (q : Position) : Accepts space q ws () [] := accepts_spaces hws (by simp)
    refine refuses_bind_of_accepts [w] fun q ↦ ⟨_, accepts_expect hkind, ?_⟩
    rw [← List.append_nil ws]
    exact refuses_bind_of_accepts ws fun q ↦ ⟨(), hspace q, hright.bind⟩

end

/-- A selector before nothing but whitespace is accepted at any depth its length allows. -/
theorem accepts_complexWithin {s : Complex} (h : ComplexText longest q cs s after)
    (ha : Spaces after) {depth : Nat} (hd : cs.length ≤ depth) :
    Accepts (complexWithin depth) q cs s after := by
  induction h generalizing depth with
  | @sign q cs ws ws' ds after op left right first before joins behind others ih =>
    obtain ⟨x, xs, rfl, -⟩ := first.exists_cons
    obtain ⟨y, ys, rfl, hy⟩ := others.exists_cons
    simp only [List.length_append, List.length_cons] at hd ih
    obtain ⟨depth, rfl⟩ : ∃ d, depth = d + 1 := ⟨depth - 1, by omega⟩
    refine accepts_oneOf [] (by simp) ?_
    refine accepts_signJoin first before joins behind ?_ (ih ha (by omega))
    rintro z ⟨⟩
    exact hy.not_isSpace
  | @space q cs ws ds after w left right first joins behind others ih =>
    obtain ⟨x, xs, rfl, -⟩ := first.exists_cons
    obtain ⟨y, ys, rfl, hy⟩ := others.exists_cons
    simp only [List.length_append, List.length_cons] at hd ih
    obtain ⟨depth, rfl⟩ : ∃ d, depth = d + 1 := ⟨depth - 1, by omega⟩
    refine accepts_oneOf [_] (List.forall_mem_singleton.mpr ?_) ?_
    · have hs : ∀ z ∈ (w :: ws ++ (y :: ys ++ after)).head?, ¬ StartsCondition z := by
        rintro z ⟨⟩ hz
        exact hz.not_isSpace joins
      have hd : ∀ z ∈ (y :: ys ++ after).head?, ¬ Text.isSpace z ∧ ¬ IsSign z := by
        rintro z ⟨⟩
        exact ⟨hy.not_isSpace, hy.not_isSign⟩
      have hr := refuses_signJoin (complexWithin depth) _ (by simpa using first)
        (List.forall_mem_cons.mpr ⟨joins, behind⟩) hs hd
      simpa using hr
    · refine accepts_spaceJoin first joins behind ?_ (ih ha (by omega))
      rintro z ⟨⟩
      exact hy.not_isSpace
  | @compound q cs after only h =>
    obtain ⟨x, xs, rfl, -⟩ := h.exists_cons
    obtain ⟨depth, rfl⟩ : ∃ d, depth = d + 1 := ⟨depth - 1, by simp at hd; omega⟩
    have hs : ∀ z ∈ after.head?, ¬ StartsCondition z := by
      simpa using not_startsCondition_of_spaces [] ha (by simp)
    refine accepts_oneOf [_, _] ?_ (accepts_compound h hs).map
    simp only [List.forall_mem_cons, List.not_mem_nil, false_implies, implies_true, and_true]
    refine ⟨?_, refuses_spaceJoin h ha (refuses_complexWithin depth)⟩
    have hr := refuses_signJoin (complexWithin depth) [] (by simpa using h) ha
      (by simpa using hs) (by simp)
    simpa using hr

end

/-- The whole text is read as a selector and whitespace behind it, or not at all. -/
theorem wholeSelector_ofText_iff (text : String) (s : Complex) :
    (∃ p, wholeSelector (.ofText text) = .ok s p) ↔ SelectorText longest text s := by
  have hat := Cursor.at_ofText text
  constructor
  · rintro ⟨p, hp⟩
    unfold wholeSelector at hp
    split at hp
    · cases hp
    · next s' p' hs =>
      obtain ⟨-, pre, post, htext, hat', hread⟩ := (reads_complexWithin _).ok hat hs
      split at hp
      · next hend =>
        cases hp
        have hspace := hat'.expectEnd.mp (congrArg Prod.fst hend)
        exact ⟨pre, post, htext, hread, fun x hx ↦ Kind.ofChar_eq_whitespace.mp (hspace x hx)⟩
      · cases hp
  · rintro ⟨cs, ws, htext, hs, hws⟩
    have hlength : cs.length ≤ (Cursor.ofText text).remaining + 1 := by
      rw [hat.remaining, htext, List.length_append]
      omega
    obtain ⟨p', hp, -, hat'⟩ := accepts_complexWithin hs hws hlength (.ofText text) (htext ▸ hat)
    have hend := hat'.expectEnd.mpr fun x hx ↦ Kind.ofChar_of_isSpace (hws x hx)
    refine ⟨p'.moveTo p'.cursor.expectEnd.2, ?_⟩
    unfold wholeSelector
    have hc : complex (.ofText text) = .ok s p' := hp
    rw [hc]
    dsimp only
    split
    · next h => rw [h]
    · next h => rw [h] at hend; cases hend

end Production

/-- A text parses as a selector if the selector is its reading with longest names. -/
theorem parse_eq_ok_iff {text : String} {s : Complex} :
    parse text = .ok s ↔ SelectorText longest text s := by
  rw [← Production.wholeSelector_ofText_iff]
  unfold parse run
  constructor
  · intro h
    split at h
    · next s' p hp =>
      cases h
      exact ⟨p, hp⟩
    · split at h <;> cases h
  · rintro ⟨p, hp⟩
    rw [hp]

/-! ### Literals -/

/-- The values that a selector compares attributes with. -/
def Complex.values (s : Complex) : List AttributeValue :=
  s.chain.flatMap fun link ↦ link.compound.conditions.filterMap fun
    | .attr test => test.value
    | _ => none

/-- A literal that holds `inner` between two quotes of one kind, and no such quote in it. -/
def IsLiteral (quoted inner : String) : Prop :=
  ∃ quote, IsQuote quote ∧ quote ∉ inner.toList ∧
    quoted = String.ofList (quote :: (inner.toList ++ [quote]))

/-- The content of a literal is what stands between its quotes. -/
theorem unquote_of_isLiteral {quoted inner : String} (h : IsLiteral quoted inner) :
    unquote quoted = inner := by
  obtain ⟨quote, hquote, -, rfl⟩ := h
  have hsize : quote.utf8Size = 1 := by rcases hquote with rfl | rfl <;> rfl
  simp [unquote, hsize]

private theorem exists_isLiteral_of_valueText {ends : List Char → Prop} {cs after : List Char}
    {quoted : String} (h : ValueText ends cs (.literal quoted) after) :
    ∃ inner, IsLiteral quoted inner := by
  obtain @⟨quote, inner, _, hquote, hin⟩ := h
  exact ⟨String.ofList inner, quote, hquote, by simpa using hin, by simp⟩

private theorem CompoundText.isLiteral {ends : List Char → Prop} {cs after : List Char}
    {l : List Simple} (h : CompoundText ends cs l after) {test : AttributeTest} {quoted : String}
    (hmem : .attr test ∈ l) (hv : test.value = some (.literal quoted)) :
    ∃ inner, IsLiteral quoted inner := by
  have hsimple {ds x} (hs : SimpleText ends ds (.attr test) x) :
      ∃ inner, IsLiteral quoted inner := by
    obtain _ | _ | @⟨_, _, _, inside⟩ | _ := hs
    cases inside with
    | present _ => cases hv
    | compared _ _ _ expected =>
      cases hv
      exact exists_isLiteral_of_valueText expected
  induction h with
  | one only =>
    cases List.mem_singleton.mp hmem
    exact hsimple only
  | more first _ ih =>
    rcases List.mem_cons.mp hmem with rfl | hmem
    · exact hsimple first
    · exact ih hmem

/-- Every compound of a selector has its text. -/
private theorem ComplexText.exists_compoundText {ends : List Char → Prop} {p : Position}
    {cs after : List Char} {s : Complex} (h : ComplexText ends p cs s after)
    (before : Option Combinator) {link : Link} (hlink : link ∈ s.linksAfter before) :
    ∃ ds x, CompoundText ends ds link.compound.conditions x := by
  induction h generalizing before with
  | sign first _ _ _ _ ih =>
    rcases List.mem_cons.mp hlink with rfl | hlink
    · exact ⟨_, _, first⟩
    · exact ih _ hlink
  | space first _ _ _ ih =>
    rcases List.mem_cons.mp hlink with rfl | hlink
    · exact ⟨_, _, first⟩
    · exact ih _ hlink
  | compound only =>
    cases List.mem_singleton.mp hlink
    exact ⟨_, _, only⟩

/-- The literals of a selector of the grammar are quoted as they ought to be. -/
theorem exists_isLiteral_of_selectorText {ends : List Char → Prop} {text : String} {s : Complex}
    (h : SelectorText ends text s) {quoted : String} (hq : .literal quoted ∈ s.values) :
    ∃ inner, IsLiteral quoted inner := by
  obtain ⟨cs, ws, -, hs, -⟩ := h
  obtain ⟨link, hlink, hcondition⟩ := List.mem_flatMap.mp hq
  obtain ⟨condition, hmem, hvalue⟩ := List.mem_filterMap.mp hcondition
  obtain ⟨ds, x, hc⟩ := ComplexText.exists_compoundText hs none hlink
  cases condition with
  | attr test => exact CompoundText.isLiteral hc hmem hvalue
  | _ => cases hvalue

/-- Parsing accepts the texts of the plain grammar and no others. It gives each the selector of its
reading with longest names, in which every literal is its content between two equal quotes. -/
theorem parse_accepts_grammar (text : String) :
    ((∃ s, parse text = .ok s) ↔ ∃ s, SelectorText anywhere text s) ∧
      (∀ s, parse text = .ok s ↔ SelectorText longest text s) ∧
      ∀ s, parse text = .ok s → ∀ quoted, .literal quoted ∈ s.values →
        ∃ inner, IsLiteral quoted inner ∧ (AttributeValue.literal quoted).content = inner := by
  refine ⟨⟨?_, ?_⟩, fun s ↦ parse_eq_ok_iff, ?_⟩
  · rintro ⟨s, hs⟩
    exact ⟨s, (parse_eq_ok_iff.mp hs).toAnywhere⟩
  · rintro ⟨s, hs⟩
    obtain ⟨s', hs'⟩ := exists_longest_of_anywhere hs
    exact ⟨s', parse_eq_ok_iff.mpr hs'⟩
  · intro s hs quoted hq
    obtain ⟨inner, hinner⟩ := exists_isLiteral_of_selectorText (parse_eq_ok_iff.mp hs) hq
    exact ⟨inner, hinner, unquote_of_isLiteral hinner⟩

end StyleCheck.Selector
