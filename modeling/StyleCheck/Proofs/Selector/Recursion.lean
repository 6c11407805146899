import StyleCheck.Proofs.Selector.Acceptance
import StyleCheck.Proofs.Selector.Faults

/-!
# Recursion of the selector parser

A selector calls itself for the right side of a join, and the model counts the depth to which it
may. The count does not matter: `Calls` gives the parses at which a selector is called from inside
another, and each of them has fewer characters ahead, so a depth beyond these is never used up. Main
statement: how far the loop and the recursion of the parser go, and that a selector fails just
where a compound does.
-/

namespace StyleCheck.Selector.Production

open Grammar

variable {α β : Type} {P : Production α} {Q : α → Production β} {Ps : List (Production α)}
  {R : Reading α} {S : α → Reading β} {text : String} {p p' : Parse} {c c' : Cursor}
  {q : Position} {cs : List Char} {a : α}

/-! ### Progress -/

/-- Any text but the empty one. -/
def NotEmpty : Reading α := fun _ cs _ _ ↦ cs ≠ []

theorem Took.length_lt (h : Took NotEmpty c q cs a c') :
    ∃ q' cs', c'.At q' cs' ∧ cs'.length < cs.length := by
  obtain ⟨-, pre, post, rfl, hat, hne⟩ := h
  refine ⟨_, post, hat, ?_⟩
  rw [List.length_append]
  exact Nat.lt_add_of_pos_left (List.length_pos_iff.mpr hne)

/-- Inside a text, a cursor that took something has moved on. -/
theorem Took.position_lt (h : Took NotEmpty c q cs a c') (hc : c.Inside text) (hat : c.At q cs) :
    c'.Inside text ∧ c.position < c'.position := by
  obtain ⟨q', cs', hat', hlt⟩ := h.length_lt
  refine ⟨hc.of_keeps h.1 hat', ?_⟩
  rw [← hat.remaining, ← hat'.remaining, Cursor.remaining, Cursor.remaining, h.1.tokens] at hlt
  omega

/-- A sequence moves on if its first production does. -/
theorem Reads.notEmpty_bind (hP : Reads P NotEmpty) (hQ : ∀ a, Reads (Q a) (S a)) :
    Reads (P >>= Q) NotEmpty := by
  refine (hP.bind hQ).mono ?_
  rintro q _ b after ⟨pre, post, a, rfl, hne, -⟩ h
  exact hne (List.append_eq_nil_iff.mp h).1

private theorem ne_nil_of_exists_cons (h : ∃ x xs, cs = x :: xs ∧ StartsCondition x) :
    cs ≠ [] := by
  obtain ⟨x, xs, rfl, -⟩ := h
  exact List.cons_ne_nil x xs

theorem notEmpty_simple : Reads simple NotEmpty :=
  reads_simple.mono fun _ _ _ _ h ↦ ne_nil_of_exists_cons h.exists_cons

theorem notEmpty_compound : Reads compound NotEmpty :=
  reads_compound.mono fun _ _ _ _ h ↦ ne_nil_of_exists_cons h.exists_cons

theorem reads_complex : Reads complex (ComplexText longest) where
  ok hat hok := (reads_complexWithin _).ok hat hok
  error hat herr := (reads_complexWithin _).error hat herr

theorem notEmpty_complex : Reads complex NotEmpty :=
  reads_complex.mono fun _ _ _ _ h ↦ ne_nil_of_exists_cons h.exists_cons

/-! ### Rounds of a repetition -/

/-- The rounds of a repetition, the last one counted: each but the last succeeds and moves on, the
last one fails. -/
inductive Rounds (P : Production α) : Nat → Parse → List α → Parse → Prop
  | last {errors : List SyntaxError} {p p' : Parse}
      (fails : attempt P p = (⟨none, errors⟩, p')) : Rounds P 1 p [] p'
  | next {n : Nat} {a : α} {l : List α} {errors : List SyntaxError} {p p' p'' : Parse}
      (succeeds : attempt P p = (⟨some a, errors⟩, p'))
      (moves : p.cursor.position < p'.cursor.position) (others : Rounds P n p' l p'') :
      Rounds P (n + 1) p (a :: l) p''

/-- A production that reads something is repeated until it fails, and no more often than there are
characters. -/
theorem rounds_many (hP : Reads P NotEmpty) (hp : p.cursor.Inside text) :
    ∃ n l, (many P p).1.result = some l ∧ Rounds P n p l (many P p).2 ∧
      n ≤ p.cursor.remaining + 1 := by
  fun_induction Production.many P p with
  | case1 p errors p' hattempt => exact ⟨1, [], rfl, .last hattempt, Nat.le_add_left _ _⟩
  | case2 p a errors p' hattempt hlt others ih =>
    have ht := hP.took_attempt hp.stands.toAt hattempt
    obtain ⟨hp', hmoves⟩ := ht.position_lt hp hp.stands.toAt
    obtain ⟨n, l, hl, hrounds, hn⟩ := ih hp'
    exact ⟨n + 1, a :: l, by simp [others, hl], .next hattempt hmoves hrounds, by omega⟩
  | case3 p a errors p' hattempt hge =>
    obtain ⟨q', cs', hat', hlt⟩ := (hP.took_attempt hp.stands.toAt hattempt).length_lt
    rw [← hat'.remaining, ← hp.stands.toAt.remaining] at hlt
    exact absurd hlt hge

/-! ### Calls of the right side -/

/-- The left side of a join by a sign. -/
def signLeft : Production (Token × Compound) := do
  let left ← compound
  space
  let operator ← expect combinatorKinds
  space
  return (operator, left)

/-- The left side of a join by whitespace. -/
def spaceLeft : Production (Token × Compound) := do
  let left ← compound
  let operator ← expect [.whitespace]
  space
  return (operator, left)

/-- A left side and what `right` reads behind it. -/
def joinWith (left : Production (Token × Compound)) (right : Production Complex) :
    Production Complex := do
  let (operator, left) ← left
  return .joined operator left (← right)

theorem signJoin_eq (right : Production Complex) : signJoin right = joinWith signLeft right := by
  simp [signJoin, joinWith, signLeft]

theorem spaceJoin_eq (right : Production Complex) :
    spaceJoin right = joinWith spaceLeft right := by
  simp [spaceJoin, joinWith, spaceLeft]

theorem notEmpty_signLeft : Reads signLeft NotEmpty :=
  notEmpty_compound.notEmpty_bind fun left ↦ reads_spaces.bind fun _ ↦
    (reads_expect combinatorKinds).bind fun operator ↦ reads_spaces.bind fun _ ↦
      Reads.pure (operator, left)

theorem notEmpty_spaceLeft : Reads spaceLeft NotEmpty :=
  notEmpty_compound.notEmpty_bind fun left ↦ (reads_expect [.whitespace]).bind fun operator ↦
    reads_spaces.bind fun _ ↦ Reads.pure (operator, left)

/-- A selector whose right sides are read by `right`. -/
def selectorBy (right : Production Complex) : Production Complex :=
  oneOf [signJoin right, spaceJoin right, Complex.compound <$> compound] .noSelector

/-- The parses at which a selector from `p` calls `right`: behind the left side of a join.
Whitespace is tried as a join when a sign has failed. -/
inductive Calls (right : Production Complex) (p : Parse) : Parse → Prop
  | sign {l : Token × Compound} {p' : Parse}
      (left : signLeft (p.moveTo p.cursor.save) = .ok l p') : Calls right p p'
  | space {errors : List SyntaxError} {l : Token × Compound} {next p' : Parse}
      (fails : attempt (signJoin right) p = (⟨none, errors⟩, next))
      (left : spaceLeft (next.moveTo next.cursor.save) = .ok l p') : Calls right p p'

section

variable {right right' : Production Complex} {left : Production (Token × Compound)}

private theorem joinWith_congr (h : ∀ l p', left p = .ok l p' → right p' = right' p') :
    joinWith left right p = joinWith left right' p := by
  unfold joinWith
  cases hp : left p with
  | error e p' => rw [bind_error hp, bind_error hp]
  | ok l p' =>
    rw [bind_ok hp, bind_ok hp]
    show EStateM.bind right _ p' = EStateM.bind right' _ p'
    rw [EStateM.bind, EStateM.bind, h l p' hp]

/-- Of `right`, a selector knows only what it does where it is called. -/
theorem selectorBy_congr (h : ∀ p', Calls right p p' → right p' = right' p') :
    selectorBy right p = selectorBy right' p := by
  have hsign : attempt (signJoin right') p = attempt (signJoin right) p := by
    rw [attempt, attempt, signJoin_eq, signJoin_eq, joinWith_congr fun l p' hl ↦ h p' (.sign hl)]
  have hfirst : firstOf [signJoin right, spaceJoin right, Complex.compound <$> compound] p =
      firstOf [signJoin right', spaceJoin right', Complex.compound <$> compound] p := by
    rw [firstOf, firstOf, hsign]
    split
    · rfl
    · next errors next hfails =>
      have hspace : attempt (spaceJoin right') next = attempt (spaceJoin right) next := by
        rw [attempt, attempt, spaceJoin_eq, spaceJoin_eq,
          joinWith_congr fun l p' hl ↦ h p' (.space hfails hl)]
      rw [firstOf, firstOf, hspace]
  rw [selectorBy, selectorBy, oneOf, oneOf, hfirst]

/-- At every call something has been read. -/
theorem Calls.took (h : Calls right p p') (hright : Reads right (ComplexText longest))
    (hat : p.cursor.At q cs) :
    ∃ l : Token × Compound, Took NotEmpty p.cursor.save q cs l p'.cursor := by
  cases h with
  | @sign l _ left =>
    have hsave : (p.moveTo p.cursor.save).cursor.At q cs := ⟨hat.inside, hat.ahead⟩
    exact ⟨l, notEmpty_signLeft.ok hsave left⟩
  | @space errors l next _ fails left =>
    have hcursor := (reads_signJoin hright).cursor_attempt hat fails
    have hsave : (next.moveTo next.cursor.save).cursor.At q cs := by
      rw [hcursor]
      exact ⟨hat.inside, hat.ahead⟩
    exact ⟨l, hcursor ▸ notEmpty_spaceLeft.ok hsave left⟩

end

/-- More depth than there are characters left changes nothing. -/
theorem complexWithin_eq {depth depth' : Nat} (hat : p.cursor.At q cs) (hlt : cs.length < depth)
    (hle : depth ≤ depth') : complexWithin depth p = complexWithin depth' p := by
  induction depth generalizing depth' p q cs with
  | zero => exact absurd hlt (Nat.not_lt_zero _)
  | succ depth ih =>
    obtain ⟨depth', rfl⟩ := Nat.exists_eq_add_of_le' hle
    show selectorBy (complexWithin depth) p = selectorBy (complexWithin (depth' + depth)) p
    refine selectorBy_congr fun p' hcall ↦ ?_
    obtain ⟨l, ht⟩ := hcall.took (reads_complexWithin depth) hat
    obtain ⟨q', cs', hat', hlt'⟩ := ht.length_lt
    exact ih hat' (by omega) (Nat.le_add_left _ _)

/-- A selector calls itself. -/
theorem complex_eq (hat : p.cursor.At q cs) : complex p = selectorBy complex p := by
  show selectorBy (complexWithin p.cursor.remaining) p = selectorBy complex p
  refine selectorBy_congr fun p' hcall ↦ ?_
  obtain ⟨l, ht⟩ := hcall.took (reads_complexWithin _) hat
  obtain ⟨q', cs', hat', hlt⟩ := ht.length_lt
  have hr := hat.remaining
  have hr' := hat'.remaining
  exact (complexWithin_eq hat' (by omega) (by omega)).symm

/-- The calls of a selector, one inside the other, come to an end. -/
theorem acc_calls (hat : p.cursor.At q cs) : Acc (fun p' p ↦ Calls complex p p') p := by
  induction hn : cs.length using Nat.strongRecOn generalizing p q cs with
  | ind n ih =>
    refine .intro p fun p' hcall ↦ ?_
    obtain ⟨l, ht⟩ := hcall.took reads_complex hat
    obtain ⟨q', cs', hat', hlt⟩ := ht.length_lt
    exact ih _ (hn ▸ hlt) hat' rfl

/-! ### Where a selector fails -/

/-- A condition with longest names stands in front. -/
def BeginsWithCondition (cs : List Char) : Prop :=
  ∃ first s rest, cs = first ++ rest ∧ SimpleText longest first s rest

theorem beginsWithCondition_of_compoundText {after : List Char} {l : List Simple}
    (h : CompoundText longest cs l after) : BeginsWithCondition (cs ++ after) := by
  obtain ⟨first, rest, s, rfl, hs, -⟩ := exists_compoundText_iff.mp ⟨l, h⟩
  exact ⟨first, s, rest ++ after, List.append_assoc .., hs⟩

section

variable (hR : ∀ P ∈ Ps, Reads P R) (hmem : P ∈ Ps)
  (hP : ∀ p : Parse, p.cursor.At q cs → ∃ a p', P p = .ok a p') (hat : p.cursor.At q cs)
include hR hmem hP hat

private theorem exists_result_firstOf : ∃ a, (firstOf Ps p).1.result = some a := by
  induction Ps generalizing p with
  | nil => cases hmem
  | cons P' Ps ih =>
    rw [firstOf]
    split
    · next a errors p' _ => exact ⟨a, rfl⟩
    · next errors p' hfails =>
      have hcursor := (hR P' List.mem_cons_self).cursor_attempt hat hfails
      rcases List.mem_cons.mp hmem with rfl | hmem
      · -- An alternative that failed here is not the one that succeeds.
        obtain ⟨a, p'', hok⟩ := hP (p.moveTo p.cursor.save) ⟨hat.inside, hat.ahead⟩
        rw [attempt, hok] at hfails
        cases hfails
      · obtain ⟨a, ha⟩ := ih (fun P h ↦ hR P (List.mem_cons_of_mem P' h)) hmem (hcursor ▸ hat)
        dsimp only
        rw [ha]
        exact ⟨a, ha⟩

/-- A choice succeeds where one of its alternatives does, whatever the trail. -/
theorem exists_ok_oneOf {otherwise : Problem} : ∃ a p', oneOf Ps otherwise p = .ok a p' := by
  obtain ⟨a, ha⟩ := exists_result_firstOf hR hmem hP hat
  exact ⟨a, (firstOf Ps p).2, by simp [oneOf, settle, Attempt.toExcept, ha]⟩

end

/-- A compound succeeds where a condition comes next. -/
theorem compound_ok_iff (hat : p.cursor.At q cs) :
    (∃ c p', compound p = .ok c p') ↔ BeginsWithCondition cs := by
  constructor
  · rintro ⟨c, p', hok⟩
    obtain ⟨-, pre, post, rfl, -, hc⟩ := reads_compound.ok hat hok
    exact beginsWithCondition_of_compoundText hc
  · rintro ⟨first, s, rest, rfl, hs⟩
    obtain ⟨p', hattempt, -⟩ := (accepts_simple hs).attempt hat
    obtain ⟨l, hl⟩ : ∃ l, (many simple p).1.result = some (s :: l) := by
      rw [many, hattempt]
      dsimp only
      split
      · exact ⟨_, rfl⟩
      · exact ⟨[], rfl⟩
    exact ⟨⟨s :: l⟩, (many simple p).2, by simp [compound, hl]⟩

/-- A selector succeeds where a condition comes next: if neither join does, its compound does. -/
theorem complex_ok_iff (hat : p.cursor.At q cs) :
    (∃ s p', complex p = .ok s p') ↔ BeginsWithCondition cs := by
  constructor
  · rintro ⟨s, p', hok⟩
    obtain ⟨-, pre, post, rfl, -, hs⟩ := reads_complex.ok hat hok
    cases hs with
    | sign first | space first =>
      rw [List.append_assoc]
      exact beginsWithCondition_of_compoundText first
    | compound only => exact beginsWithCondition_of_compoundText only
  · intro hbegins
    rw [complex_eq hat]
    refine exists_ok_oneOf (R := fun _ _ _ _ ↦ True) (P := Complex.compound <$> compound) ?_
      (by simp) ?_ hat
    · simp only [List.forall_mem_cons, List.not_mem_nil, false_implies, implies_true, and_true]
      refine ⟨?_, ?_, ?_⟩
      · exact (reads_signJoin reads_complex).mono fun _ _ _ _ _ ↦ trivial
      · exact (reads_spaceJoin reads_complex).mono fun _ _ _ _ _ ↦ trivial
      · exact reads_compound.map.mono fun _ _ _ _ _ ↦ trivial
    · intro p' hat'
      obtain ⟨c, p'', hok⟩ := (compound_ok_iff hat').mpr hbegins
      rw [map_eq_pure_bind]
      exact ⟨.compound c, p'', bind_ok hok⟩

theorem exists_error_iff : (∃ e p', P p = .error e p') ↔ ¬ ∃ a p', P p = .ok a p' := by
  cases P p <;> simp

theorem exists_ok_of_matches (h : P p matches .ok _ _) : ∃ a p', P p = .ok a p' := by
  cases hp : P p with
  | ok a p' => exact ⟨a, p', rfl⟩
  | error e p' => rw [hp] at h; cases h

/-! ### The recursion -/

/-- The production does not succeed here without moving on. -/
def Moves (P : Production α) (p : Parse) : Prop :=
  ∀ a p', P p = .ok a p' → p.cursor.position < p'.cursor.position

theorem moves_of_notEmpty (hP : Reads P NotEmpty) (hp : p.cursor.Inside text) : Moves P p :=
  fun _ _ hok ↦ ((hP.ok hp.stands.toAt hok).position_lt hp hp.stands.toAt).2

/-- Inside any text, whatever the checkpoints and the trail, a condition, a compound and a selector
do not succeed without moving on. The rounds of a compound end with a condition that fails, and
there is at most one more of them than tokens are left. A selector calls itself for its right sides,
at places inside the text beyond its own and nowhere else; so its calls come to an end, and a depth
beyond the tokens left changes nothing. It fails just where a compound fails, at whatever
checkpoints and trail that one is tried. -/
theorem selector_recursion_bounded (text : String) (p : Parse) (hp : p.cursor.Inside text) :
    (Moves simple p ∧ Moves compound p ∧ Moves complex p) ∧
      (∃ n l, (many simple p).1.result = some l ∧ Rounds simple n p l (many simple p).2 ∧
        n ≤ p.cursor.remaining + 1) ∧
      complex p = selectorBy complex p ∧
      (∀ p', Calls complex p p' →
        p'.cursor.Inside text ∧ p.cursor.position < p'.cursor.position) ∧
      (∀ right, (∀ p', Calls complex p p' → right p' = complex p') →
        selectorBy right p = complex p) ∧
      Acc (fun p' p ↦ Calls complex p p') p ∧
      (∀ depth, p.cursor.remaining < depth → complexWithin depth p = complex p) ∧
      ∀ p', p'.cursor.Inside text → p'.cursor.position = p.cursor.position →
        ((∃ e p'', complex p = .error e p'') ↔ ∃ e p'', compound p' = .error e p'') := by
  have hat := hp.stands.toAt
  refine ⟨⟨moves_of_notEmpty notEmpty_simple hp, moves_of_notEmpty notEmpty_compound hp,
    moves_of_notEmpty notEmpty_complex hp⟩, rounds_many notEmpty_simple hp, complex_eq hat,
    fun p' hcall ↦ ?_, fun right hright ↦ ?_, acc_calls hat, fun depth hdepth ↦ ?_,
    fun p' hp' hposition ↦ ?_⟩
  · obtain ⟨l, ht⟩ := hcall.took reads_complex hat
    have hsave : p.cursor.save.Inside text := ⟨hp.tokens, hp.within⟩
    exact ht.position_lt hsave ⟨hat.inside, hat.ahead⟩
  · rw [complex_eq hat]
    exact (selectorBy_congr fun p' hcall ↦ (hright p' hcall).symm).symm
  · refine (complexWithin_eq hat ?_ hdepth).symm
    rw [hat.remaining]
    exact Nat.lt_succ_self _
  · have hat' := hp'.stands.toAt
    rw [hposition] at hat'
    rw [exists_error_iff, exists_error_iff, complex_ok_iff hat, compound_ok_iff hat']

/-- Nothing follows the sign, so the right side that is called behind it fails; the selector is the
compound before the sign. -/
theorem selector_recursion_bounded_of_sign :
    let p : Parse := ⟨{ Cursor.ofText "b a>" with position := 2, saved := [7] }, []⟩
    p.cursor.Inside "b a>" ∧ (∃ p', Calls complex p p' ∧ 2 < p'.cursor.position) ∧
      ¬ ∃ e p', complex p = .error e p' := by
  intro p
  have hp : p.cursor.Inside "b a>" := ⟨rfl, by decide⟩
  obtain ⟨-, -, -, hcalls, -, -, -, hfails⟩ := selector_recursion_bounded "b a>" p hp
  obtain ⟨l, p', hleft⟩ := exists_ok_of_matches (P := signLeft) (p := p.moveTo p.cursor.save)
    (by decide +kernel)
  have hcompound : ∃ c p', compound p = .ok c p' := exists_ok_of_matches (by decide +kernel)
  refine ⟨hp, ⟨p', .sign hleft, (hcalls p' (.sign hleft)).2⟩, fun hcomplex ↦ ?_⟩
  exact exists_error_iff.mp ((hfails p hp rfl).mp hcomplex) hcompound

end StyleCheck.Selector.Production
