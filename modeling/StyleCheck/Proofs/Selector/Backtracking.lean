import Mathlib.Logic.Relation
import StyleCheck.Proofs.Selector.Faults

/-!
# Checkpoints

A cursor saves its place, and goes back or forgets the place, in single steps on a stack. What a
production does to the cursor is a run of such steps that never reaches below the checkpoints it
found, and that leaves them as they were. Main statement: whatever is composed of the parser's
operations returns to the checkpoints that it began with, inside the text and not behind the place
where it began.
-/

namespace StyleCheck.Selector

open Relation (ReflTransGen)

/-! ### Steps of a cursor -/

namespace Cursor

/-- A cursor reads a token or saves its place, or it forgets or goes back to a place that was saved
above the checkpoints `saved`. -/
inductive Step (saved : List Nat) : Cursor → Cursor → Prop
  | consume {c c' : Cursor} {t : Token} (h : c.consume = some (t, c')) : Step saved c c'
  | save (c : Cursor) : Step saved c c.save
  | forget {c : Cursor} (above : saved.length < c.saved.length) : Step saved c c.forget
  | restore {c : Cursor} (above : saved.length < c.saved.length) : Step saved c c.restore

/-- A cursor inside a text, and with it all places saved above the checkpoints `saved`. -/
structure Above (text : String) (saved : List Nat) (c : Cursor) : Prop extends c.Inside text where
  checkpoints : ∃ own, c.saved = own ++ saved ∧ ∀ n ∈ own, n ≤ c.tokens.size

/-- The cursor comes to another one in steps, with the checkpoints that it began with and not behind
its place. -/
structure Returns (c c' : Cursor) : Prop where
  steps : ReflTransGen (Step c.saved) c c'
  saved : c'.saved = c.saved
  forward : c.position ≤ c'.position

/-- The text that a cursor has passed. -/
def passed (c : Cursor) : String := String.ofList ((c.tokens.toList.take c.position).map Token.char)

variable {text : String} {saved : List Nat} {c c' c'' : Cursor} {t : Token} {kinds : List Kind}

theorem consume_eq_some (h : c.consume = some (t, c')) :
    c.position < c.tokens.size ∧ c' = { c with position := c.position + 1 } := by
  simp only [consume, peek, Option.map_eq_some_iff, Prod.mk.injEq] at h
  obtain ⟨u, hu, -, rfl⟩ := h
  exact ⟨(Array.getElem?_eq_some_iff.mp hu).1, rfl⟩

/-- A stack that is higher than the checkpoints below has a place saved above them. -/
private theorem Above.exists_cons (h : c.Above text saved) (hlt : saved.length < c.saved.length) :
    ∃ n own, c.saved = n :: (own ++ saved) ∧ n ≤ c.tokens.size ∧ ∀ m ∈ own, m ≤ c.tokens.size := by
  obtain ⟨own, hsaved, hown⟩ := h.checkpoints
  cases own with
  | nil =>
    rw [hsaved, List.nil_append] at hlt
    exact absurd hlt (Nat.lt_irrefl _)
  | cons n own => exact ⟨n, own, hsaved, List.forall_mem_cons.mp hown⟩

/-- No step leaves the text or touches the checkpoints below. -/
theorem Above.step (h : c.Above text saved) (hstep : Step saved c c') : c'.Above text saved := by
  cases hstep with
  | consume hc =>
    obtain ⟨hlt, rfl⟩ := consume_eq_some hc
    exact ⟨⟨h.tokens, hlt⟩, h.checkpoints⟩
  | save =>
    obtain ⟨own, hsaved, hown⟩ := h.checkpoints
    refine ⟨⟨h.tokens, h.within⟩, c.position :: own, congrArg (c.position :: ·) hsaved, ?_⟩
    exact List.forall_mem_cons.mpr ⟨h.within, hown⟩
  | forget hlt =>
    obtain ⟨n, own, hsaved, -, hown⟩ := h.exists_cons hlt
    exact ⟨⟨h.tokens, h.within⟩, own, congrArg List.tail hsaved, hown⟩
  | restore hlt =>
    obtain ⟨n, own, hsaved, hn, hown⟩ := h.exists_cons hlt
    rw [Cursor.restore, hsaved]
    exact ⟨⟨h.tokens, hn⟩, own, rfl, hown⟩

theorem Above.steps (h : c.Above text saved) (hsteps : ReflTransGen (Step saved) c c') :
    c'.Above text saved := by
  induction hsteps with
  | refl => exact h
  | tail _ hstep ih => exact ih.step hstep

theorem Inside.above (h : c.Inside text) : c.Above text c.saved := ⟨h, [], rfl, nofun⟩

/-- Inside a text, what was passed and what is left make up the text, and the place of the cursor is
the one reached over what was passed. -/
theorem Inside.passed_append (h : c.Inside text) :
    c.passed ++ c.remainder = text ∧ c.place = Position.start.advanceOver c.passed.toList := by
  have hchars : c.tokens.toList.map Token.char = text.toList := by
    rw [h.tokens]
    exact map_char_tokensFrom .start text.toList
  have hpassed : c.passed.toList = text.toList.take c.position := by
    rw [passed, String.toList_ofList, List.map_take, hchars]
  refine ⟨String.toList_inj.mp ?_, hpassed ▸ h.stands.place⟩
  rw [String.toList_append, hpassed, remainder, String.toList_ofList, List.map_drop, hchars,
    List.take_append_drop]

/-! ### Runs of steps -/

theorem Returns.refl (c : Cursor) : c.Returns c := ⟨.refl, rfl, Nat.le_refl _⟩

theorem Returns.trans (h : c.Returns c') (h' : c'.Returns c'') : c.Returns c'' :=
  ⟨h.steps.trans (h.saved ▸ h'.steps), h'.saved.trans h.saved, Nat.le_trans h.forward h'.forward⟩

theorem returns_of_consume (h : c.consume = some (t, c')) : c.Returns c' := by
  refine ⟨.single (.consume h), ?_, ?_⟩
  all_goals obtain ⟨-, rfl⟩ := consume_eq_some h
  · rfl
  · exact Nat.le_succ _

theorem returns_of_consumeIf (h : c.consumeIf kinds = some (t, c')) : c.Returns c' := by
  unfold consumeIf at h
  split at h
  · split at h
    · exact returns_of_consume h
    · cases h
  · cases h

theorem returns_takeRun (kinds : List Kind) (c : Cursor) : c.Returns (c.takeRun kinds).2 := by
  fun_induction takeRun kinds c with
  | case1 c t c' hc rest ih => exact (returns_of_consumeIf hc).trans ih
  | case2 c hc => exact .refl c

/-- What is above more checkpoints is above fewer. -/
private theorem Step.mono {n : Nat} (h : Step (n :: saved) c c') : Step saved c c' := by
  cases h with
  | consume hc => exact .consume hc
  | save => exact .save c
  | forget hlt => exact .forget (Nat.lt_of_succ_lt hlt)
  | restore hlt => exact .restore (Nat.lt_of_succ_lt hlt)

section

variable (h : c.save.Returns c')
include h

private theorem Returns.steps_of_save : ReflTransGen (Step c.saved) c c' :=
  .head (.save c) (ReflTransGen.mono (fun _ _ ↦ Step.mono) _ _ h.steps)

private theorem Returns.above_of_save : c.saved.length < c'.saved.length := by
  rw [h.saved]
  exact Nat.lt_succ_self _

theorem Returns.forget : c.Returns c'.forget where
  steps := h.steps_of_save.tail (.forget h.above_of_save)
  saved := congrArg List.tail h.saved
  forward := h.forward

theorem Returns.position_restore : c'.restore.position = c.position := by
  rw [Cursor.restore, h.saved]
  rfl

theorem Returns.restore : c.Returns c'.restore where
  steps := h.steps_of_save.tail (.restore h.above_of_save)
  saved := by
    rw [Cursor.restore, h.saved]
    rfl
  forward := Nat.le_of_eq h.position_restore.symm

end

end Cursor

/-! ### Productions that return -/

namespace Production

variable {α β : Type}

/-- The parse that a production leaves, whatever comes of it. -/
def leaves (P : Production α) (p : Parse) : Parse :=
  match P p with
  | .ok _ p' => p'
  | .error _ p' => p'

/-- Whatever comes of a production, its cursor returns. -/
def Balanced (P : Production α) : Prop :=
  ∀ p : Parse, p.cursor.Returns (leaves P p).cursor

variable {P : Production α} {Q : α → Production β} {Ps : List (Production α)} {p p' : Parse}

theorem Balanced.ok (h : Balanced P) {a : α} (hok : P p = .ok a p') :
    p.cursor.Returns p'.cursor := by
  have hr := h p
  rwa [leaves, hok] at hr

theorem Balanced.error (h : Balanced P) {e : SyntaxError} (herr : P p = .error e p') :
    p.cursor.Returns p'.cursor := by
  have hr := h p
  rwa [leaves, herr] at hr

theorem Balanced.bind (hP : Balanced P) (hQ : ∀ a, Balanced (Q a)) : Balanced (P >>= Q) := by
  intro p
  cases hp : P p with
  | error e p' =>
    rw [leaves, bind_error hp]
    exact hP.error hp
  | ok a p' =>
    rw [leaves, bind_ok hp]
    exact (hP.ok hp).trans (hQ a p')

/-- A production is balanced that fails where it stands or succeeds where its cursor returns. -/
theorem balanced_of_cases
    (h : ∀ p, (∃ e, P p = .error e p) ∨ ∃ a c, P p = .ok a (p.moveTo c) ∧ p.cursor.Returns c) :
    Balanced P := by
  intro p
  rcases h p with ⟨e, hp⟩ | ⟨a, c, hp, hc⟩
  · rw [leaves, hp]
    exact .refl _
  · rw [leaves, hp]
    exact hc

theorem balanced_expect (kinds : List Kind) : Balanced (expect kinds) := by
  refine balanced_of_cases fun p ↦ ?_
  cases hc : p.cursor.consumeIf kinds with
  | none => exact .inl ⟨_, by simp only [expect, ofCursor, Cursor.expect, hc]; rfl⟩
  | some read =>
    exact .inr ⟨read.1, read.2, by simp only [expect, ofCursor, Cursor.expect, hc],
      Cursor.returns_of_consumeIf hc⟩

theorem balanced_optionally (kinds : List Kind) : Balanced (optionally kinds) := by
  refine balanced_of_cases fun p ↦ .inr ?_
  cases hc : p.cursor.consumeIf kinds with
  | none => exact ⟨none, p.cursor, by simp only [optionally, hc]; rfl, .refl _⟩
  | some read =>
    exact ⟨some read.1, read.2, by simp only [optionally, hc], Cursor.returns_of_consumeIf hc⟩

theorem balanced_run (kinds : List Kind) : Balanced (run kinds) :=
  balanced_of_cases fun p ↦ .inr ⟨_, _, rfl, Cursor.returns_takeRun kinds p.cursor⟩

theorem balanced_space : Balanced space :=
  balanced_of_cases fun p ↦ .inr ⟨_, _, rfl, Cursor.returns_takeRun [.whitespace] p.cursor⟩

/-- A string that is not closed is read to the end of the text: the cursor has moved, and returns
all the same. -/
theorem balanced_closeQuote (quote : Char) : Balanced (closeQuote quote) := by
  intro p
  unfold leaves
  fun_induction closeQuote quote p with
  | case1 p _ => exact .refl _
  | case2 p t c hc _ => exact Cursor.returns_of_consume hc
  | case3 p t c hc _ cs p' hrest ih =>
    rw [hrest] at ih
    exact (Cursor.returns_of_consume hc).trans ih
  | case4 p t c hc _ e p' hrest ih =>
    rw [hrest] at ih
    exact (Cursor.returns_of_consume hc).trans ih

/-! ### Attempts -/

/-- What comes of a trial: the cursor returns, and without a result it has not moved. -/
structure Backs {γ : Type} (p : Parse) (tried : Attempt Problem γ × Parse) : Prop where
  returns : p.cursor.Returns tried.2.cursor
  position : tried.1.result = none → tried.2.cursor.position = p.cursor.position

theorem Balanced.attempt (h : Balanced P) (p : Parse) : Backs p (attempt P p) := by
  unfold Production.attempt
  cases hp : P (p.moveTo p.cursor.save) with
  | ok a p' =>
    have hr : p.cursor.save.Returns p'.cursor := h.ok hp
    exact ⟨hr.forget, nofun⟩
  | error e p' =>
    have hr : p.cursor.save.Returns p'.cursor := h.error hp
    have hcursor : ((p'.moveTo p'.cursor.restore).record e).cursor = p'.cursor.restore :=
      cursor_record e _
    exact ⟨hcursor ▸ hr.restore, fun _ ↦ hcursor ▸ hr.position_restore⟩

theorem Balanced.optional (h : Balanced P) : Balanced (optional P) := fun p ↦
  (h.attempt p).returns

theorem backs_firstOf (h : ∀ P ∈ Ps, Balanced P) (p : Parse) : Backs p (firstOf Ps p) := by
  induction Ps generalizing p with
  | nil => exact ⟨.refl _, fun _ ↦ rfl⟩
  | cons P Ps ih =>
    have hb := (h P List.mem_cons_self).attempt p
    unfold firstOf
    split
    · next a errors p' hp => rwa [hp] at hb
    · next errors p' hp =>
      rw [hp] at hb
      have hrest := ih (fun P' h' ↦ h P' (List.mem_cons_of_mem P h')) p'
      have hreturns := hb.returns.trans hrest.returns
      dsimp only
      split
      · exact ⟨hreturns, fun hnone ↦ (hrest.position hnone).trans (hb.position rfl)⟩
      · next hnone => exact ⟨hreturns, fun _ ↦ (hrest.position hnone).trans (hb.position rfl)⟩

theorem balanced_oneOf (h : ∀ P ∈ Ps, Balanced P) (otherwise : Problem) :
    Balanced (oneOf Ps otherwise) := by
  intro p
  have hb := (backs_firstOf h p).returns
  unfold leaves oneOf settle
  cases (firstOf Ps p).1.toExcept ⟨otherwise, p.cursor.place⟩ <;> exact hb

theorem Balanced.many (h : Balanced P) (p : Parse) : p.cursor.Returns (many P p).2.cursor := by
  fun_induction Production.many P p with
  | case1 p errors p' hp =>
    have hb := h.attempt p
    rw [hp] at hb
    exact hb.returns
  | case2 p a errors p' hp hlt others ih =>
    have hb := h.attempt p
    rw [hp] at hb
    exact hb.returns.trans ih
  | case3 p a errors p' hp hge =>
    have hb := h.attempt p
    rw [hp] at hb
    exact hb.returns

theorem balanced_compound (h : Balanced simple) : Balanced compound := by
  intro p
  have hr := h.many p
  unfold leaves compound
  dsimp only
  split
  · next heq =>
    split at heq <;> cases heq
    exact hr
  · next heq =>
    split at heq <;> cases heq
    exact hr

/-! ### What a parser is composed of -/

/-- The operations on the cursor and on the trail, and what is composed of them: one production
after another, attempts, choices and repetitions. -/
inductive Composed : {α : Type} → Production α → Prop
  | pure {α : Type} (a : α) : Composed (pure a : Production α)
  | fail {α : Type} (e : Parse → SyntaxError) : Composed (fun p ↦ .error (e p) p : Production α)
  | expect (kinds : List Kind) : Composed (expect kinds)
  | optionally (kinds : List Kind) : Composed (optionally kinds)
  | run (kinds : List Kind) : Composed (run kinds)
  | space : Composed space
  | closeQuote (quote : Char) : Composed (closeQuote quote)
  | bind {α β : Type} {P : Production α} {Q : α → Production β} (first : Composed P)
      (second : ∀ a, Composed (Q a)) : Composed (P >>= Q)
  | optional {α : Type} {P : Production α} (h : Composed P) : Composed (optional P)
  | oneOf {α : Type} {Ps : List (Production α)} {otherwise : Problem}
      (h : ∀ P ∈ Ps, Composed P) : Composed (oneOf Ps otherwise)
  | compound (h : Composed simple) : Composed compound
  | complex (h : ∀ depth, Composed (complexWithin depth)) : Composed complex

namespace Composed

theorem balanced (h : Composed P) : Balanced P := by
  induction h with
  | pure a => exact fun p ↦ .refl p.cursor
  | fail e => exact fun p ↦ .refl p.cursor
  | expect kinds => exact balanced_expect kinds
  | optionally kinds => exact balanced_optionally kinds
  | run kinds => exact balanced_run kinds
  | space => exact balanced_space
  | closeQuote quote => exact balanced_closeQuote quote
  | bind _ _ first second => exact first.bind second
  | optional _ ih => exact ih.optional
  | oneOf _ ih => exact balanced_oneOf ih _
  | compound _ ih => exact balanced_compound ih
  | complex _ ih => exact fun p ↦ ih (p.cursor.remaining + 1) p

theorem map (h : Composed P) (f : α → β) : Composed (f <$> P) := by
  rw [map_eq_pure_bind]
  exact h.bind fun a ↦ .pure (f a)

theorem name : Composed name := .bind (.expect _) fun _ ↦ .bind (.run _) fun _ ↦ .pure _

theorem idName : Composed idName := .bind (.expect _) fun _ ↦ .bind .name fun _ ↦ .pure _

theorem className : Composed className := .bind (.expect _) fun _ ↦ .bind .name fun _ ↦ .pure _

theorem literal : Composed literal :=
  .bind (.expect _) fun _ ↦ .bind (.closeQuote _) fun _ ↦ .pure _

theorem attributeValue : Composed attributeValue := by
  refine .oneOf ?_
  simp only [List.forall_mem_cons, List.not_mem_nil, false_implies, implies_true, and_true]
  exact ⟨literal.map _, name.map _⟩

theorem comparison : Composed comparison := by
  refine .bind .space fun _ ↦ .bind (.optionally _) fun sign ↦ .bind (.expect _) fun equals ↦ ?_
  cases Comparison.ofSign? (sign.map Token.kind) with
  | none => exact .fail fun _ ↦ ⟨.unknownOperator, equals.position⟩
  | some comparison => exact .bind .space fun _ ↦ .bind attributeValue fun _ ↦ .pure _

theorem attributeTest : Composed attributeTest :=
  .bind name fun _ ↦ .bind (.optional comparison) fun _ ↦ .pure _

theorem attributeCondition : Composed attributeCondition :=
  .bind (.expect _) fun _ ↦ .bind attributeTest fun _ ↦ .bind (.expect _) fun _ ↦ .pure _

theorem simple : Composed simple := by
  refine .oneOf ?_
  simp only [List.forall_mem_cons, List.not_mem_nil, false_implies, implies_true, and_true]
  exact ⟨idName, className, attributeCondition, name.map _⟩

section

variable {right : Production Complex} (h : Composed right)
include h

theorem signJoin : Composed (signJoin right) :=
  .bind (.compound simple) fun _ ↦ .bind .space fun _ ↦ .bind (.expect _) fun _ ↦
    .bind .space fun _ ↦ .bind h fun _ ↦ .pure _

theorem spaceJoin : Composed (spaceJoin right) :=
  .bind (.compound simple) fun _ ↦ .bind (.expect _) fun _ ↦ .bind .space fun _ ↦
    .bind h fun _ ↦ .pure _

end

theorem complexWithin (depth : Nat) : Composed (complexWithin depth) := by
  induction depth with
  | zero => exact .fail fun p ↦ ⟨.noSelector, p.cursor.place⟩
  | succ depth ih =>
    refine .oneOf ?_
    simp only [List.forall_mem_cons, List.not_mem_nil, false_implies, implies_true, and_true]
    exact ⟨ih.signJoin, ih.spaceJoin, (compound simple).map _⟩

end Composed

/-- Every production of the parser is composed of operations on the cursor and the trail. Whatever
is so composed, attempts, choices and repetitions of it included, returns from inside any text to
the checkpoints that it began with, whatever they are; it ends inside the text and not behind the
place where it began, and where an attempt or a choice fails, at that place. On the way, in any
steps that keep to their own checkpoints, what the cursor has passed and what is left make up the
text, and its place is the one reached over what it has passed. -/
theorem backtracking_leaves_no_trace :
    (Composed name ∧ Composed idName ∧ Composed className ∧ Composed literal ∧
      Composed attributeValue ∧ Composed comparison ∧ Composed attributeTest ∧
      Composed attributeCondition ∧ Composed simple ∧ Composed compound ∧
      Composed (signJoin complex) ∧ Composed (spaceJoin complex) ∧ Composed complex) ∧
    ∀ (text : String) (p : Parse), p.cursor.Inside text →
      (∀ {α : Type} (P : Production α), Composed P →
        (p.cursor.Returns (leaves P p).cursor ∧ (leaves P p).cursor.Inside text) ∧
        (Backs p (attempt P p) ∧ (attempt P p).2.cursor.Inside text) ∧
        p.cursor.Returns (many P p).2.cursor ∧ (many P p).2.cursor.Inside text) ∧
      (∀ {α : Type} (Ps : List (Production α)), (∀ P ∈ Ps, Composed P) →
        Backs p (firstOf Ps p) ∧ (firstOf Ps p).2.cursor.Inside text) ∧
      ∀ c, ReflTransGen (Cursor.Step p.cursor.saved) p.cursor c →
        c.Inside text ∧ c.passed ++ c.remainder = text ∧
          c.place = Position.start.advanceOver c.passed.toList := by
  have hcomplex : Composed complex := .complex .complexWithin
  refine ⟨⟨.name, .idName, .className, .literal, .attributeValue, .comparison, .attributeTest,
    .attributeCondition, .simple, .compound .simple, hcomplex.signJoin, hcomplex.spaceJoin,
    hcomplex⟩, fun text p hp ↦ ?_⟩
  have hsteps {c : Cursor} (hc : ReflTransGen (Cursor.Step p.cursor.saved) p.cursor c) :
      c.Inside text := (hp.above.steps hc).toInside
  refine ⟨fun P hP ↦ ?_, fun Ps hPs ↦ ?_, fun c hc ↦ ⟨hsteps hc, (hsteps hc).passed_append⟩⟩
  · have hr := hP.balanced p
    have hattempt := hP.balanced.attempt p
    have hmany := hP.balanced.many p
    exact ⟨⟨hr, hsteps hr.steps⟩, ⟨hattempt, hsteps hattempt.returns.steps⟩,
      hmany, hsteps hmany.steps⟩
  · have hfirst := backs_firstOf (fun P h ↦ (hPs P h).balanced) p
    exact ⟨hfirst, hsteps hfirst.returns.steps⟩

/-- No sign follows the second compound, so an attempt at one goes back to before that compound; the
checkpoint that was there before, which lies outside the text, is still there. -/
theorem backtracking_leaves_no_trace_of_sign :
    let p : Parse := ⟨{ Cursor.ofText "a>b c" with position := 2, saved := [7] }, []⟩
    let tried := attempt (signJoin complex) p
    p.cursor.Inside "a>b c" ∧ tried.1.result.isNone ∧ tried.2.cursor.position = 2 ∧
      tried.2.cursor.saved = [7] ∧ tried.2.cursor.Inside "a>b c" := by
  intro p tried
  have hp : p.cursor.Inside "a>b c" := ⟨rfl, by decide⟩
  have hfails : tried.1.result.isNone := by decide +kernel
  have hjoin : Composed (signJoin complex) := Composed.signJoin (.complex .complexWithin)
  obtain ⟨hbacks, hinside⟩ :=
    ((backtracking_leaves_no_trace.2 "a>b c" p hp).1 (signJoin complex) hjoin).2.1
  exact ⟨hp, hfails, hbacks.position (Option.isNone_iff_eq_none.mp hfails), hbacks.returns.saved,
    hinside⟩

end Production

end StyleCheck.Selector
