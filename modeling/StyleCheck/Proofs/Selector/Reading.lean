import StyleCheck.Selector.Parser

/-!
# Readings of a production

What a production does to the cursor, stated on the text that lies ahead. `Reads` says that it
keeps the tokens and the checkpoints whatever comes of it, and that on success it has taken a text
of a given relation from the front; `Accepts` and `Refuses` say on which texts it succeeds and
fails. Each combinator of the parser carries these from its parts to the whole.
-/

namespace StyleCheck.Selector

/-! ### Cursors -/

namespace Cursor

/-- The cursor stands at a place of the text, before the characters `cs`. -/
structure At (c : Cursor) (q : Position) (cs : List Char) : Prop where
  inside : c.position ≤ c.tokens.size
  ahead : c.tokens.toList.drop c.position = tokensFrom q cs

/-- The second cursor has the tokens and the checkpoints of the first, and is not behind it. -/
structure Keeps (c c' : Cursor) : Prop where
  tokens : c'.tokens = c.tokens
  saved : c'.saved = c.saved
  forward : c.position ≤ c'.position

variable {c c' c'' : Cursor} {q : Position} {x : Char} {cs : List Char} {kinds : List Kind}

theorem Keeps.refl (c : Cursor) : c.Keeps c := ⟨rfl, rfl, Nat.le_refl _⟩

theorem Keeps.trans (h : c.Keeps c') (h' : c'.Keeps c'') : c.Keeps c'' :=
  ⟨h'.tokens.trans h.tokens, h'.saved.trans h.saved, Nat.le_trans h.forward h'.forward⟩

theorem length_tokensFrom (q : Position) (cs : List Char) :
    (tokensFrom q cs).length = cs.length := by
  induction cs generalizing q with
  | nil => rfl
  | cons x cs ih => simp [tokensFrom, ih]

/-- The characters of the tokens are the text. -/
theorem map_char_tokensFrom (q : Position) (cs : List Char) :
    (tokensFrom q cs).map Token.char = cs := by
  induction cs generalizing q with
  | nil => rfl
  | cons x cs ih => simp [tokensFrom, ih]

/-- As many tokens are left as characters lie ahead. -/
theorem At.remaining (h : c.At q cs) : c.remaining = cs.length := by
  have hl := congrArg List.length h.ahead
  simpa [length_tokensFrom, Cursor.remaining] using hl

/-- A cursor before a text begins at the first place. -/
theorem at_ofText (text : String) : (ofText text).At .start text.toList :=
  ⟨Nat.zero_le _, by simp [ofText, ofTokens, tokenize]⟩

theorem At.peek_nil (h : c.At q []) : c.peek = none := by
  have hr := h.remaining
  simp only [Cursor.remaining, List.length_nil] at hr
  exact Array.getElem?_eq_none (by omega)

theorem At.peek_cons (h : c.At q (x :: cs)) : c.peek = some ⟨.ofChar x, x, q⟩ := by
  have hh := congrArg List.head? h.ahead
  simpa [tokensFrom, List.head?_drop, Cursor.peek] using hh

private theorem At.next (h : c.At q (x :: cs)) :
    At { c with position := c.position + 1 } (q.advance x) cs := by
  have hr := h.remaining
  simp only [Cursor.remaining, List.length_cons] at hr
  refine ⟨by simp only; omega, ?_⟩
  have ht := congrArg List.tail h.ahead
  simpa [tokensFrom, List.tail_drop] using ht

/-- The next character is read. -/
theorem At.consume_cons (h : c.At q (x :: cs)) :
    ∃ c', c.consume = some (⟨.ofChar x, x, q⟩, c') ∧ c.Keeps c' ∧ c'.At (q.advance x) cs :=
  ⟨{ c with position := c.position + 1 }, by simp [consume, h.peek_cons],
    ⟨rfl, rfl, Nat.le_succ _⟩, h.next⟩

/-- Nothing is read at the end. -/
theorem At.consume_nil (h : c.At q []) : c.consume = none := by
  simp [consume, h.peek_nil]

/-- What is read is the next character. -/
theorem At.of_consume {t : Token} (h : c.At q cs) (hc : c.consume = some (t, c')) :
    ∃ x rest, cs = x :: rest ∧ t = ⟨.ofChar x, x, q⟩ ∧ c.Keeps c' ∧ c'.At (q.advance x) rest := by
  cases cs with
  | nil =>
    rw [h.consume_nil] at hc
    cases hc
  | cons x rest =>
    obtain ⟨d, hd, hkeeps, hat⟩ := h.consume_cons
    rw [hd] at hc
    cases hc
    exact ⟨x, rest, rfl, rfl, hkeeps, hat⟩

/-- Nothing is read just at the end. -/
theorem At.eq_nil_of_consume (h : c.At q cs) (hc : c.consume = none) : cs = [] := by
  cases cs with
  | nil => rfl
  | cons x rest =>
    obtain ⟨d, hd, -, -⟩ := h.consume_cons
    rw [hd] at hc
    cases hc

/-- The next character is read if its kind is asked for. -/
theorem At.consumeIf_cons (h : c.At q (x :: cs)) (hk : .ofChar x ∈ kinds) :
    ∃ c', c.consumeIf kinds = some (⟨.ofChar x, x, q⟩, c') ∧ c.Keeps c' ∧
      c'.At (q.advance x) cs := by
  obtain ⟨c', hc, hkeeps, hat⟩ := h.consume_cons
  exact ⟨c', by simp [consumeIf, h.peek_cons, hk, hc], hkeeps, hat⟩

/-- Nothing is read where no character of the kinds comes next. -/
theorem At.consumeIf_none (h : c.At q cs) (hk : ∀ x ∈ cs.head?, .ofChar x ∉ kinds) :
    c.consumeIf kinds = none := by
  cases cs with
  | nil => simp [consumeIf, h.peek_nil]
  | cons x cs =>
    have hx : .ofChar x ∉ kinds := hk x rfl
    simp [consumeIf, h.peek_cons, hx]

/-- Every text falls into a run of the characters of a class and what follows it. -/
theorem exists_run (r : Char → Prop) (cs : List Char) :
    ∃ run rest, cs = run ++ rest ∧ (∀ x ∈ run, r x) ∧ ∀ x ∈ rest.head?, ¬ r x := by
  induction cs with
  | nil => exact ⟨[], [], rfl, by simp, by simp⟩
  | cons x cs ih =>
    by_cases hx : r x
    · obtain ⟨run, rest, rfl, hr, hn⟩ := ih
      exact ⟨x :: run, rest, rfl, List.forall_mem_cons.mpr ⟨hx, hr⟩, hn⟩
    · exact ⟨[], x :: cs, rfl, by simp, by simpa using hx⟩

/-- A run takes the characters of the kinds from the front. -/
theorem At.takeRun {run rest : List Char} (h : c.At q (run ++ rest))
    (hr : ∀ x ∈ run, .ofChar x ∈ kinds) (hn : ∀ x ∈ rest.head?, .ofChar x ∉ kinds) :
    ∃ c', c.takeRun kinds = (tokensFrom q run, c') ∧ c.Keeps c' ∧
      c'.At (q.advanceOver run) rest := by
  induction run generalizing c q with
  | nil =>
    have hc : c.consumeIf kinds = none := h.consumeIf_none hn
    refine ⟨c, ?_, .refl c, h⟩
    rw [Cursor.takeRun]
    split
    · next t c' hc' => rw [hc] at hc'; cases hc'
    · rfl
  | cons x run ih =>
    obtain ⟨c', hc, hkeeps, hat⟩ := h.consumeIf_cons (hr x List.mem_cons_self)
    obtain ⟨c'', hrun, hkeeps', hat'⟩ := ih hat fun y hy ↦ hr y (List.mem_cons_of_mem x hy)
    refine ⟨c'', ?_, hkeeps.trans hkeeps', hat'⟩
    rw [Cursor.takeRun]
    split
    · next t d hd =>
      rw [hc] at hd
      cases hd
      simp only [hrun, tokensFrom]
    · next hd => rw [hc] at hd; cases hd

/-- The text ends here if nothing but whitespace is left. -/
theorem At.expectEnd (h : c.At q cs) :
    c.expectEnd.1 = none ↔ ∀ x ∈ cs, .ofChar x = Kind.whitespace := by
  obtain ⟨run, rest, rfl, hr, hn⟩ := exists_run (.ofChar · ∈ [Kind.whitespace]) cs
  obtain ⟨c', hc, -, hat⟩ := h.takeRun hr hn
  simp only [List.mem_singleton] at hr hn
  simp only [Cursor.expectEnd, skipSpace, hc]
  cases rest with
  | nil => simpa [hat.peek_nil] using hr
  | cons y rest =>
    simp only [hat.peek_cons, reduceCtorEq, false_iff]
    intro hall
    exact hn y rfl (hall y (by simp))

end Cursor

/-! ### Productions -/

namespace Production

/-- What is read from a place: the text, the result and the text that follows. -/
abbrev Reading (α : Type) := Position → List Char → α → List Char → Prop

/-- From before `cs` at `q`, the second cursor has read a text of `R` with result `a`. -/
def Took {α : Type} (R : Reading α) (c : Cursor) (q : Position) (cs : List Char) (a : α)
    (c' : Cursor) : Prop :=
  c.Keeps c' ∧ ∃ pre post, cs = pre ++ post ∧ c'.At (q.advanceOver pre) post ∧ R q pre a post

/-- A production keeps tokens and checkpoints, and what it reads belongs to `R`. -/
structure Reads {α : Type} (P : Production α) (R : Reading α) : Prop where
  ok : ∀ {p p' : Parse} {q : Position} {cs : List Char} {a : α}, p.cursor.At q cs →
    P p = .ok a p' → Took R p.cursor q cs a p'.cursor
  error : ∀ {p p' : Parse} {q : Position} {cs : List Char} {e : SyntaxError},
    p.cursor.At q cs → P p = .error e p' → p.cursor.Keeps p'.cursor

/-- A text of `R` and, with its result, a text of `S` behind it. -/
def Then {α β : Type} (R : Reading α) (S : α → Reading β) : Reading β := fun q cs b after ↦
  ∃ pre post a, cs = pre ++ post ∧ R q pre a (post ++ after) ∧ S a (q.advanceOver pre) post b after

/-- A production reads the text `cs` from before `cs ++ after`, with result `a`. -/
def Accepts {α : Type} (P : Production α) (q : Position) (cs : List Char) (a : α)
    (after : List Char) : Prop :=
  ∀ p : Parse, p.cursor.At q (cs ++ after) → ∃ p', P p = .ok a p' ∧ p.cursor.Keeps p'.cursor ∧
    p'.cursor.At (q.advanceOver cs) after

/-- A production fails before the text `cs`. -/
def Refuses {α : Type} (P : Production α) (cs : List Char) : Prop :=
  ∀ (p : Parse) (q : Position), p.cursor.At q cs →
    ∃ e p', P p = .error e p' ∧ p.cursor.Keeps p'.cursor

section

variable {α β : Type} {P : Production α} {Q : α → Production β} {R R' : Reading α}
  {S : α → Reading β} {p p' : Parse} {q : Position}
  {cs after : List Char} {a : α} {b : β} {e : SyntaxError}

theorem bind_ok (h : P p = .ok a p') : (P >>= Q) p = Q a p' := by
  simp [bind, EStateM.bind, h]

theorem bind_error (h : P p = .error e p') : (P >>= Q) p = .error e p' := by
  simp [bind, EStateM.bind, h]

theorem advanceOver_append (q : Position) (cs ds : List Char) :
    q.advanceOver (cs ++ ds) = (q.advanceOver cs).advanceOver ds := by
  simp [Position.advanceOver]

/-! #### One production after another -/

theorem Reads.mono (h : Reads P R) (hR : ∀ q cs a after, R q cs a after → R' q cs a after) :
    Reads P R' where
  ok hat hok := by
    obtain ⟨hkeeps, pre, post, hcs, hat', hr⟩ := h.ok hat hok
    exact ⟨hkeeps, pre, post, hcs, hat', hR _ _ _ _ hr⟩
  error := h.error

/-- Of two productions in sequence the second reads on where the first stopped. -/
theorem Reads.bind (hP : Reads P R) (hQ : ∀ a, Reads (Q a) (S a)) : Reads (P >>= Q) (Then R S) where
  ok {p p'' q cs b} hat hok := by
    cases hp : P p with
    | error e p' => rw [bind_error hp] at hok; cases hok
    | ok a p' =>
      rw [bind_ok hp] at hok
      obtain ⟨hkeeps, pre, post, rfl, hat', hr⟩ := hP.ok hat hp
      obtain ⟨hkeeps', pre', post', rfl, hat'', hs⟩ := (hQ a).ok hat' hok
      refine ⟨hkeeps.trans hkeeps', pre ++ pre', post', by simp, ?_, pre, pre', a, rfl, hr, hs⟩
      rwa [advanceOver_append]
  error {p p'' q cs e} hat herr := by
    cases hp : P p with
    | error e' p' =>
      rw [bind_error hp] at herr
      cases herr
      exact hP.error hat hp
    | ok a p' =>
      rw [bind_ok hp] at herr
      obtain ⟨hkeeps, pre, post, rfl, hat', -⟩ := hP.ok hat hp
      exact hkeeps.trans ((hQ a).error hat' herr)

theorem Reads.pure (a : α) : Reads (pure a : Production α) fun _ cs b _ ↦ cs = [] ∧ b = a where
  ok {p p' q cs b} hat hok := by
    cases hok
    exact ⟨.refl _, [], cs, rfl, hat, rfl, rfl⟩
  error _ herr := by cases herr

theorem Reads.map {f : α → β} (h : Reads P R) :
    Reads (f <$> P) fun q cs b after ↦ ∃ a, R q cs a after ∧ b = f a := by
  rw [map_eq_pure_bind]
  refine (h.bind fun a ↦ Reads.pure (f a)).mono ?_
  rintro q cs b after ⟨pre, post, a, rfl, hr, rfl, rfl⟩
  exact ⟨a, by simpa using hr, rfl⟩

/-- Two productions in sequence read two neighbouring texts. -/
theorem Accepts.bind (ds ds' : List Char) (hcs : cs = ds ++ ds')
    (hP : Accepts P q ds a (ds' ++ after)) (hQ : Accepts (Q a) (q.advanceOver ds) ds' b after) :
    Accepts (P >>= Q) q cs b after := by
  intro p hat
  rw [hcs, List.append_assoc] at hat
  obtain ⟨p', hp, hkeeps, hat'⟩ := hP p hat
  obtain ⟨p'', hq, hkeeps', hat''⟩ := hQ p' hat'
  refine ⟨p'', (bind_ok hp).trans hq, hkeeps.trans hkeeps', ?_⟩
  rwa [hcs, advanceOver_append]

theorem Accepts.pure (a : α) : Accepts (pure a : Production α) q [] a after :=
  fun p hat ↦ ⟨p, rfl, .refl _, hat⟩

theorem Accepts.bind_pure {f : α → β} (h : Accepts P q cs a after) :
    Accepts (P >>= fun a ↦ Pure.pure (f a)) q cs (f a) after :=
  .bind cs [] (List.append_nil cs).symm (by simpa using h) (.pure _)

theorem Accepts.map {f : α → β} (h : Accepts P q cs a after) :
    Accepts (f <$> P) q cs (f a) after := by
  rw [map_eq_pure_bind]
  exact h.bind_pure

/-- A sequence fails where its first production does. -/
theorem Refuses.bind (h : Refuses P cs) : Refuses (P >>= Q) cs := by
  intro p q hat
  obtain ⟨e, p', hp, hkeeps⟩ := h p q hat
  exact ⟨e, p', bind_error hp, hkeeps⟩

/-- A sequence fails where the second production fails behind the first. -/
theorem refuses_bind_of_accepts (cs : List Char)
    (h : ∀ q, ∃ a, Accepts P q cs a after ∧ Refuses (Q a) after) :
    Refuses (P >>= Q) (cs ++ after) := by
  intro p q hat
  obtain ⟨a, hP, hQ⟩ := h q
  obtain ⟨p', hp, hkeeps, hat'⟩ := hP p hat
  obtain ⟨e, p'', hq, hkeeps'⟩ := hQ p' _ hat'
  exact ⟨e, p'', (bind_ok hp).trans hq, hkeeps.trans hkeeps'⟩

theorem Refuses.map {f : α → β} (h : Refuses P cs) : Refuses (f <$> P) cs := by
  rw [map_eq_pure_bind]
  exact h.bind

end

/-! #### Single tokens and runs -/

section

variable {kinds : List Kind} {q : Position} {x : Char} {cs after : List Char}

/-- A cursor before some text either takes a character of the kinds or finds none. -/
theorem consumeIf_cases {c : Cursor} (hat : c.At q cs) (kinds : List Kind) :
    (c.consumeIf kinds = none ∧ ∀ x ∈ cs.head?, .ofChar x ∉ kinds) ∨
      ∃ x rest c', cs = x :: rest ∧ .ofChar x ∈ kinds ∧
        c.consumeIf kinds = some (⟨.ofChar x, x, q⟩, c') ∧ c.Keeps c' ∧
          c'.At (q.advance x) rest := by
  cases cs with
  | nil => exact .inl ⟨hat.consumeIf_none (by simp), by simp⟩
  | cons x rest =>
    by_cases hk : .ofChar x ∈ kinds
    · obtain ⟨c', hc, hkeeps, hat'⟩ := hat.consumeIf_cons hk
      exact .inr ⟨x, rest, c', rfl, hk, hc, hkeeps, hat'⟩
    · have hn : ∀ y ∈ (x :: rest).head?, .ofChar y ∉ kinds := by simpa using hk
      exact .inl ⟨hat.consumeIf_none hn, hn⟩

theorem reads_expect (kinds : List Kind) :
    Reads (expect kinds) fun q cs t _ ↦
      ∃ x, .ofChar x ∈ kinds ∧ cs = [x] ∧ t = ⟨.ofChar x, x, q⟩ where
  ok {p p' q cs t} hat hok := by
    rcases consumeIf_cases hat kinds with ⟨hc, -⟩ | ⟨x, rest, c', rfl, hk, hc, hkeeps, hat'⟩
    · simp [expect, ofCursor, Cursor.expect, hc] at hok
    · simp only [expect, ofCursor, Cursor.expect, hc, EStateM.Result.ok.injEq] at hok
      obtain ⟨rfl, rfl⟩ := hok
      exact ⟨hkeeps, [x], rest, rfl, hat', x, hk, rfl, rfl⟩
  error {p p' q cs e} hat herr := by
    rcases consumeIf_cases hat kinds with ⟨hc, -⟩ | ⟨x, rest, c', rfl, hk, hc, hkeeps, hat'⟩
    · simp only [expect, ofCursor, Cursor.expect, hc, EStateM.Result.error.injEq] at herr
      obtain ⟨-, rfl⟩ := herr
      exact .refl _
    · simp [expect, ofCursor, Cursor.expect, hc] at herr

theorem accepts_expect (hk : .ofChar x ∈ kinds) :
    Accepts (expect kinds) q [x] ⟨.ofChar x, x, q⟩ after := by
  intro p hat
  obtain ⟨c', hc, hkeeps, hat'⟩ := hat.consumeIf_cons hk
  exact ⟨p.moveTo c', by simp [expect, ofCursor, Cursor.expect, hc], hkeeps, hat'⟩

theorem refuses_expect (hk : ∀ x ∈ cs.head?, .ofChar x ∉ kinds) : Refuses (expect kinds) cs := by
  intro p q hat
  exact ⟨⟨.unexpected kinds (p.cursor.peek.map Token.kind), p.cursor.place⟩, p,
    by simp [expect, ofCursor, Cursor.expect, hat.consumeIf_none hk], .refl _⟩

theorem reads_optionally (kinds : List Kind) :
    Reads (optionally kinds) fun q cs t _ ↦
      (∃ x, .ofChar x ∈ kinds ∧ cs = [x] ∧ t = some ⟨.ofChar x, x, q⟩) ∨ cs = [] ∧ t = none where
  ok {p p' q cs t} hat hok := by
    rcases consumeIf_cases hat kinds with ⟨hc, -⟩ | ⟨x, rest, c', rfl, hk, hc, hkeeps, hat'⟩
    · simp only [optionally, hc, EStateM.Result.ok.injEq] at hok
      obtain ⟨rfl, rfl⟩ := hok
      exact ⟨.refl _, [], cs, rfl, hat, .inr ⟨rfl, rfl⟩⟩
    · simp only [optionally, hc, EStateM.Result.ok.injEq] at hok
      obtain ⟨rfl, rfl⟩ := hok
      exact ⟨hkeeps, [x], rest, rfl, hat', .inl ⟨x, hk, rfl, rfl⟩⟩
  error {p p' q cs e} hat herr := by
    rcases consumeIf_cases hat kinds with ⟨hc, -⟩ | ⟨x, rest, c', rfl, hk, hc, hkeeps, hat'⟩
    · simp [optionally, hc] at herr
    · simp [optionally, hc] at herr

theorem accepts_optionally_some (hk : .ofChar x ∈ kinds) :
    Accepts (optionally kinds) q [x] (some ⟨.ofChar x, x, q⟩) after := by
  intro p hat
  obtain ⟨c', hc, hkeeps, hat'⟩ := hat.consumeIf_cons hk
  exact ⟨p.moveTo c', by simp [optionally, hc], hkeeps, hat'⟩

theorem accepts_optionally_none (hk : ∀ x ∈ after.head?, .ofChar x ∉ kinds) :
    Accepts (optionally kinds) q [] none after := by
  intro p hat
  exact ⟨p, by simp [optionally, hat.consumeIf_none hk], .refl _, hat⟩

theorem accepts_run (hr : ∀ x ∈ cs, .ofChar x ∈ kinds)
    (hn : ∀ x ∈ after.head?, .ofChar x ∉ kinds) :
    Accepts (run kinds) q cs (tokensFrom q cs) after := by
  intro p hat
  obtain ⟨c', hc, hkeeps, hat'⟩ := hat.takeRun hr hn
  exact ⟨p.moveTo c', by simp [run, hc], hkeeps, hat'⟩

theorem reads_run (kinds : List Kind) :
    Reads (run kinds) fun q cs ts after ↦ ts = tokensFrom q cs ∧
      (∀ x ∈ cs, .ofChar x ∈ kinds) ∧ ∀ x ∈ after.head?, .ofChar x ∉ kinds where
  ok {p p' q cs ts} hat hok := by
    obtain ⟨pre, post, rfl, hr, hn⟩ := Cursor.exists_run (.ofChar · ∈ kinds) cs
    obtain ⟨d, hd, hkeeps, hat'⟩ := accepts_run hr hn p hat
    rw [hd] at hok
    cases hok
    exact ⟨hkeeps, pre, post, rfl, hat', rfl, hr, hn⟩
  error _ herr := by cases herr

theorem accepts_space (hs : ∀ x ∈ cs, .ofChar x = Kind.whitespace)
    (hn : ∀ x ∈ after.head?, .ofChar x ≠ Kind.whitespace) : Accepts space q cs () after := by
  intro p hat
  have hs' : ∀ x ∈ cs, .ofChar x ∈ [Kind.whitespace] := by simpa using hs
  have hn' : ∀ x ∈ after.head?, .ofChar x ∉ [Kind.whitespace] := by simpa using hn
  obtain ⟨c', hc, hkeeps, hat'⟩ := hat.takeRun hs' hn'
  exact ⟨p.moveTo c', by simp [space, Cursor.skipSpace, hc], hkeeps, hat'⟩

theorem reads_space :
    Reads space fun _ cs _ _ ↦ ∀ x ∈ cs, .ofChar x = Kind.whitespace where
  ok {p p' q cs u} hat hok := by
    obtain ⟨pre, post, rfl, hs, hn⟩ := Cursor.exists_run (.ofChar · = Kind.whitespace) cs
    obtain ⟨d, hd, hkeeps, hat'⟩ := accepts_space hs hn p hat
    rw [hd] at hok
    cases hok
    exact ⟨hkeeps, pre, post, rfl, hat', hs⟩
  error _ herr := by cases herr

end

/-! #### Attempts -/

section

variable {α : Type} {P : Production α} {Ps : List (Production α)} {R : Reading α} {p p' : Parse}
  {q : Position} {cs ds after : List Char} {a : α} {l : List α}

theorem cursor_record (e : SyntaxError) (p : Parse) : (p.record e).cursor = p.cursor := by
  unfold Parse.record
  split
  · split <;> rfl
  · rfl

private theorem restore_of_keeps {c c' : Cursor} (h : c.save.Keeps c') : c'.restore = c := by
  obtain ⟨tokens, position, saved⟩ := c'
  obtain ⟨rfl, rfl, -⟩ := h
  rfl

private theorem forget_of_keeps {c c' : Cursor} (h : c.save.Keeps c') : c.Keeps c'.forget :=
  ⟨h.tokens, congrArg List.tail h.saved, h.forward⟩

/-- Of what was tried, either a text of `R` was read or the cursor is back where it stood. -/
def Tried (R : Reading α) (c : Cursor) (q : Position) (cs : List Char)
    (tried : Attempt Problem α × Parse) : Prop :=
  match tried.1.result with
  | some a => Took R c q cs a tried.2.cursor
  | none => tried.2.cursor = c

theorem Reads.attempt (h : Reads P R) (hat : p.cursor.At q cs) :
    Tried R p.cursor q cs (attempt P p) := by
  have hsave : (p.moveTo p.cursor.save).cursor.At q cs := ⟨hat.inside, hat.ahead⟩
  cases hp : P (p.moveTo p.cursor.save) with
  | ok a p' =>
    obtain ⟨hkeeps, pre, post, rfl, hat', hr⟩ := h.ok hsave hp
    simp only [Tried, Production.attempt, hp]
    exact ⟨forget_of_keeps hkeeps, pre, post, rfl, ⟨hat'.inside, hat'.ahead⟩, hr⟩
  | error e p' =>
    simp only [Tried, Production.attempt, hp, cursor_record]
    exact restore_of_keeps (h.error hsave hp)

/-- An attempt that succeeds has read what its production reads. -/
theorem Reads.took_attempt {errors : List SyntaxError} (h : Reads P R) (hat : p.cursor.At q cs)
    (hp : Production.attempt P p = (⟨some a, errors⟩, p')) : Took R p.cursor q cs a p'.cursor := by
  have ht := h.attempt hat
  rwa [hp] at ht

/-- An attempt that fails leaves the cursor where it stood. -/
theorem Reads.cursor_attempt {errors : List SyntaxError} (h : Reads P R) (hat : p.cursor.At q cs)
    (hp : Production.attempt P p = (⟨none, errors⟩, p')) : p'.cursor = p.cursor := by
  have ht := h.attempt hat
  rwa [hp] at ht

theorem Accepts.attempt (h : Accepts P q cs a after) (hat : p.cursor.At q (cs ++ after)) :
    ∃ p', attempt P p = (⟨some a, []⟩, p') ∧ p.cursor.Keeps p'.cursor ∧
      p'.cursor.At (q.advanceOver cs) after := by
  obtain ⟨p', hp, hkeeps, hat'⟩ := h (p.moveTo p.cursor.save) ⟨hat.inside, hat.ahead⟩
  exact ⟨p'.moveTo p'.cursor.forget, by simp [Production.attempt, hp], forget_of_keeps hkeeps,
    ⟨hat'.inside, hat'.ahead⟩⟩

theorem Refuses.attempt (h : Refuses P cs) (hat : p.cursor.At q cs) :
    ∃ e p', attempt P p = (⟨none, [e]⟩, p') ∧ p'.cursor = p.cursor := by
  obtain ⟨e, p', hp, hkeeps⟩ := h (p.moveTo p.cursor.save) q ⟨hat.inside, hat.ahead⟩
  refine ⟨e, (p'.moveTo p'.cursor.restore).record e, by simp [Production.attempt, hp], ?_⟩
  rw [cursor_record]
  exact restore_of_keeps hkeeps

theorem reads_optional (h : Reads P R) :
    Reads (optional P) fun q cs r after ↦
      (∃ a, r = some a ∧ R q cs a after) ∨ r = none ∧ cs = [] where
  ok {p p' q cs r} hat hok := by
    have ht := h.attempt hat
    simp only [optional, EStateM.Result.ok.injEq] at hok
    obtain ⟨rfl, rfl⟩ := hok
    unfold Tried at ht
    split at ht
    · next a ha =>
      obtain ⟨hkeeps, pre, post, rfl, hat', hr⟩ := ht
      exact ⟨hkeeps, pre, post, rfl, hat', .inl ⟨a, ha, hr⟩⟩
    · next ha =>
      rw [ht]
      exact ⟨.refl _, [], cs, rfl, hat, .inr ⟨ha, rfl⟩⟩
  error _ herr := by cases herr

theorem Accepts.optional (h : Accepts P q cs a after) :
    Accepts (optional P) q cs (some a) after := by
  intro p hat
  obtain ⟨p', hp, hkeeps, hat'⟩ := h.attempt hat
  exact ⟨p', by simp [Production.optional, hp], hkeeps, hat'⟩

theorem Refuses.optional (h : Refuses P after) : Accepts (optional P) q [] none after := by
  intro p hat
  obtain ⟨e, p', hp, hc⟩ := h.attempt hat
  exact ⟨p', by simp [Production.optional, hp], hc ▸ .refl _, hc ▸ hat⟩

/-! #### Choice -/

theorem reads_firstOf (h : ∀ P ∈ Ps, Reads P R) (hat : p.cursor.At q cs) :
    Tried R p.cursor q cs (firstOf Ps p) := by
  induction Ps generalizing p with
  | nil => rfl
  | cons P Ps ih =>
    have hP := h P List.mem_cons_self
    have hPs : ∀ P ∈ Ps, Reads P R := fun P' hP' ↦ h P' (List.mem_cons_of_mem P hP')
    unfold firstOf
    split
    · next a errors p' hp => exact hP.took_attempt hat hp
    · next errors p' hp =>
      have hcursor := hP.cursor_attempt hat hp
      have ih' := ih hPs (hcursor ▸ hat)
      rw [hcursor] at ih'
      dsimp only
      split
      · exact ih'
      · next hr => simpa only [Tried, hr] using ih'

private theorem firstOf_of_refuses (h : ∀ P ∈ Ps, Refuses P cs) (hat : p.cursor.At q cs) :
    ∃ errors p', firstOf Ps p = (⟨none, errors⟩, p') ∧ p'.cursor = p.cursor := by
  induction Ps generalizing p with
  | nil => exact ⟨[], p, rfl, rfl⟩
  | cons P Ps ih =>
    obtain ⟨e, p', hp, hc⟩ := (h P List.mem_cons_self).attempt hat
    obtain ⟨errors, p'', hPs, hc'⟩ :=
      ih (fun P' hP' ↦ h P' (List.mem_cons_of_mem P hP')) (hc ▸ hat)
    exact ⟨e :: errors, p'', by simp [firstOf, hp, hPs], hc'.trans hc⟩

private theorem firstOf_of_accepts (refused others : List (Production α))
    (hr : ∀ P ∈ refused, Refuses P (cs ++ after)) (h : Accepts P q cs a after)
    (hat : p.cursor.At q (cs ++ after)) :
    ∃ errors p', firstOf (refused ++ P :: others) p = (⟨some a, errors⟩, p') ∧
      p.cursor.Keeps p'.cursor ∧ p'.cursor.At (q.advanceOver cs) after := by
  induction refused generalizing p with
  | nil =>
    obtain ⟨p', hp, hkeeps, hat'⟩ := h.attempt hat
    exact ⟨[], p', by simp [firstOf, hp], hkeeps, hat'⟩
  | cons P' refused ih =>
    obtain ⟨e, p', hp, hc⟩ := (hr P' List.mem_cons_self).attempt hat
    obtain ⟨errors, p'', hPs, hkeeps, hat'⟩ :=
      ih (fun P hP ↦ hr P (List.mem_cons_of_mem P' hP)) (hc ▸ hat)
    exact ⟨errors, p'', by simp [firstOf, hp, hPs], hc ▸ hkeeps, hat'⟩

/-- A choice reads what its alternatives read. -/
theorem reads_oneOf {otherwise : Problem} (h : ∀ P ∈ Ps, Reads P R) :
    Reads (oneOf Ps otherwise) R where
  ok {p p' q cs a} hat hok := by
    have ht := reads_firstOf h hat
    simp only [oneOf, settle, Attempt.toExcept] at hok
    unfold Tried at ht
    cases hr : (firstOf Ps p).1.result <;> simp only [hr] at ht hok
    · cases hok
    · cases hok
      exact ht
  error {p p' q cs e} hat herr := by
    have ht := reads_firstOf h hat
    simp only [oneOf, settle, Attempt.toExcept] at herr
    unfold Tried at ht
    cases hr : (firstOf Ps p).1.result <;> simp only [hr] at ht herr
    · cases herr
      exact ht ▸ .refl _
    · cases herr

/-- A choice reads what an alternative reads when those before it fail. -/
theorem accepts_oneOf (refused : List (Production α)) {others : List (Production α)}
    {otherwise : Problem}
    (hr : ∀ P ∈ refused, Refuses P (cs ++ after)) (h : Accepts P q cs a after) :
    Accepts (oneOf (refused ++ P :: others) otherwise) q cs a after := by
  intro p hat
  obtain ⟨errors, p', hp, hkeeps, hat'⟩ := firstOf_of_accepts refused others hr h hat
  exact ⟨p', by simp [oneOf, settle, Attempt.toExcept, hp], hkeeps, hat'⟩

/-- A choice fails where all its alternatives do. -/
theorem refuses_oneOf {otherwise : Problem} (h : ∀ P ∈ Ps, Refuses P cs) :
    Refuses (oneOf Ps otherwise) cs := by
  intro p q hat
  obtain ⟨errors, p', hp, hc⟩ := firstOf_of_refuses h hat
  refine ⟨(Located.deepest errors).getD ⟨otherwise, p.cursor.place⟩, p', ?_, hc ▸ .refl _⟩
  simp [oneOf, settle, Attempt.toExcept, hp]

/-! #### Repetition -/

/-- Texts of `R`, one after the other. -/
inductive Repeated (R : Reading α) : Reading (List α)
  | nil {q : Position} {after : List Char} : Repeated R q [] [] after
  | cons {q : Position} {cs ds after : List Char} {a : α} {l : List α}
      (first : R q cs a (ds ++ after)) (others : Repeated R (q.advanceOver cs) ds l after) :
      Repeated R q (cs ++ ds) (a :: l) after

/-- A repetition always has a result. -/
theorem Reads.many (h : Reads P R) (hat : p.cursor.At q cs) :
    ∃ l, (many P p).1.result = some l ∧ Took (Repeated R) p.cursor q cs l (many P p).2.cursor := by
  fun_induction Production.many P p generalizing q cs with
  | case1 p errors p' hp =>
    have hcursor := h.cursor_attempt hat hp
    exact ⟨[], rfl, hcursor ▸ .refl _, [], cs, rfl, hcursor ▸ hat, .nil⟩
  | case2 p a errors p' hp hlt others =>
    rename_i ih
    obtain ⟨hkeeps, pre, post, rfl, hat', hr⟩ := h.took_attempt hat hp
    obtain ⟨l, hl, hkeeps', pre', post', rfl, hat'', hl'⟩ := ih hat'
    refine ⟨a :: l, by simp [others, hl], hkeeps.trans hkeeps', pre ++ pre', post', by simp, ?_,
      .cons hr hl'⟩
    rwa [advanceOver_append]
  | case3 p a errors p' hp hge =>
    obtain ⟨hkeeps, pre, post, rfl, hat', hr⟩ := h.took_attempt hat hp
    refine ⟨[a], rfl, hkeeps, pre, post, rfl, hat', ?_⟩
    rw [← List.append_nil pre]
    exact .cons hr .nil

/-- A production read as often as it succeeds takes the text `cs` from before `cs ++ after`. -/
def Repeats (P : Production α) (q : Position) (cs : List Char) (l : List α) (after : List Char) :
    Prop :=
  ∀ p : Parse, p.cursor.At q (cs ++ after) → ∃ errors p', many P p = (⟨some l, errors⟩, p') ∧
    p.cursor.Keeps p'.cursor ∧ p'.cursor.At (q.advanceOver cs) after

/-- A repetition ends where its production fails. -/
theorem Refuses.repeats (h : Refuses P after) : Repeats P q [] [] after := by
  intro p hat
  obtain ⟨e, p', hp, hc⟩ := h.attempt hat
  refine ⟨[e], p', ?_, hc ▸ .refl _, hc ▸ hat⟩
  unfold Production.many
  simp [hp]

/-- A repetition goes on behind a text that its production has read. -/
theorem Accepts.repeats (h : Accepts P q cs a (ds ++ after)) (hne : cs ≠ [])
    (hl : Repeats P (q.advanceOver cs) ds l after) : Repeats P q (cs ++ ds) (a :: l) after := by
  intro p hat
  rw [List.append_assoc] at hat
  obtain ⟨p', hp, hkeeps, hat'⟩ := h.attempt hat
  obtain ⟨errors, p'', hp', hkeeps', hat''⟩ := hl p' hat'
  refine ⟨[], p'', ?_, hkeeps.trans hkeeps', by rwa [advanceOver_append]⟩
  -- The text read is not empty, so the repetition sees that it has come further.
  have hlt : p'.cursor.remaining < p.cursor.remaining := by
    have := List.length_pos_iff.mpr hne
    rw [hat.remaining, hat'.remaining]
    simp only [List.length_append]
    omega
  unfold Production.many
  simp [hp, hp', hlt]

end

end Production

end StyleCheck.Selector
