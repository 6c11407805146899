import StyleCheck.Proofs.Selector.Reading

/-!
# Where productions fail

The place of an error is the text that was read before it was met. `Fails` says of every error that
a production ends with, and of every error that it adds to the trail on its way, what holds of that
text, of the problem and of the text ahead; it also says that nothing is lost from the trail. Each
combinator of the parser carries it from its parts to the whole.
-/

namespace StyleCheck.Selector

/-! ### Places -/

namespace Position

theorem offset_advance (q : Position) (c : Char) : (q.advance c).offset = q.offset + 1 := by
  unfold advance
  split <;> rfl

/-- The offset counts characters. -/
theorem offset_advanceOver (q : Position) (cs : List Char) :
    (q.advanceOver cs).offset = q.offset + cs.length := by
  induction cs generalizing q with
  | nil => rfl
  | cons c cs ih =>
    have h := ih (q.advance c)
    rw [offset_advance] at h
    rw [advanceOver, List.foldl_cons, List.length_cons]
    rw [advanceOver] at h
    omega

end Position

namespace Cursor

/-- The cursor stands before `cs`, which ends its text, and `q` is its true place. -/
structure Stands (c : Cursor) (q : Position) (cs : List Char) : Prop extends c.At q cs where
  offset : c.position = q.offset
  ends : c.endPosition = q.advanceOver cs

variable {c c' : Cursor} {q : Position} {cs pre post : List Char}

private theorem exists_getLast?_tokensFrom (q : Position) (x : Char) (cs : List Char) :
    ∃ t, (tokensFrom q (x :: cs)).getLast? = some t ∧
      t.position.advance t.char = q.advanceOver (x :: cs) := by
  induction cs generalizing q x with
  | nil => exact ⟨_, rfl, rfl⟩
  | cons y cs ih =>
    obtain ⟨t, ht, hplace⟩ := ih (q.advance x) y
    refine ⟨t, ?_, hplace⟩
    rw [tokensFrom, List.getLast?_cons, ht]
    rfl

/-- A cursor before a text stands at its first place. -/
theorem stands_ofText (text : String) : (ofText text).Stands .start text.toList := by
  refine ⟨at_ofText text, rfl, ?_⟩
  unfold endPosition ofText ofTokens tokenize
  rw [List.back?_toArray]
  cases text.toList with
  | nil => rfl
  | cons x cs =>
    obtain ⟨t, ht, hplace⟩ := exists_getLast?_tokensFrom .start x cs
    rw [ht]
    exact hplace

/-- Reading on leads from true places to true places. -/
theorem Stands.onward (h : c.Stands q (pre ++ post)) (hkeeps : c.Keeps c')
    (hat : c'.At (q.advanceOver pre) post) : c'.Stands (q.advanceOver pre) post := by
  refine ⟨hat, ?_, ?_⟩
  · have hr := h.toAt.remaining
    have hr' := hat.remaining
    have hin := h.inside
    have hin' := hat.inside
    rw [Cursor.remaining] at hr hr'
    rw [hkeeps.tokens] at hr' hin'
    rw [List.length_append] at hr
    rw [Position.offset_advanceOver, ← h.offset]
    omega
  · have hends : c'.endPosition = c.endPosition := by rw [endPosition, endPosition, hkeeps.tokens]
    rw [hends, h.ends, Production.advanceOver_append]

/-- The place of the next token, or of the end of the text, is the place where the cursor stands. -/
theorem Stands.place (h : c.Stands q cs) : c.place = q := by
  unfold Cursor.place
  cases cs with
  | nil =>
    rw [h.toAt.peek_nil]
    exact h.ends
  | cons x cs => rw [h.toAt.peek_cons]

/-- What comes next is a token of the first character ahead. -/
theorem Stands.kind_peek (h : c.Stands q cs) :
    c.peek.map Token.kind = cs.head?.map Kind.ofChar := by
  cases cs with
  | nil => rw [h.toAt.peek_nil]; rfl
  | cons x cs => rw [h.toAt.peek_cons]; rfl

/-- The cursor reads a text and is not past its end. -/
structure Inside (c : Cursor) (text : String) : Prop where
  tokens : c.tokens = (tokenize text).toArray
  within : c.position ≤ c.tokens.size

private theorem drop_tokensFrom (q : Position) (cs : List Char) (n : Nat) :
    (tokensFrom q cs).drop n = tokensFrom (q.advanceOver (cs.take n)) (cs.drop n) := by
  induction n generalizing q cs with
  | zero => rfl
  | succ n ih =>
    cases cs with
    | nil => rfl
    | cons c cs => exact ih (q.advance c) cs

/-- Inside a text, the place of a cursor is the one reached over the characters it has passed. -/
theorem Inside.stands {text : String} (h : c.Inside text) :
    c.Stands (Position.start.advanceOver (text.toList.take c.position))
      (text.toList.drop c.position) := by
  have hsize : c.tokens.size = text.toList.length := by
    rw [h.tokens, tokenize, List.size_toArray, length_tokensFrom]
  have hwithin := h.within
  refine ⟨⟨hwithin, ?_⟩, ?_, ?_⟩
  · rw [h.tokens, tokenize, drop_tokensFrom]
  · rw [Position.offset_advanceOver, List.length_take, ← hsize, Nat.min_eq_left hwithin]
    exact (Nat.zero_add _).symm
  · rw [← Production.advanceOver_append, List.take_append_drop, ← (stands_ofText text).ends,
      endPosition, h.tokens, endPosition]
    rfl

/-- Reading on does not leave the text. -/
theorem Inside.of_keeps {text : String} {q : Position} {cs : List Char} (h : c.Inside text)
    (hkeeps : c.Keeps c') (hat : c'.At q cs) : c'.Inside text :=
  ⟨hkeeps.tokens.trans h.tokens, hat.inside⟩

end Cursor

/-! ### Errors and the trail -/

namespace Production

/-- What is said of an error: of the text read before it, its problem and the text ahead. -/
abbrev Fault := List Char → Problem → List Char → Prop

/-- What `F` says of an error when `ds` was read before. -/
def Fault.after (F : Fault) (ds : List Char) : Fault :=
  fun pre problem post ↦ F (ds ++ pre) problem post

theorem Fault.after_after (F : Fault) (ds es : List Char) :
    (F.after ds).after es = F.after (ds ++ es) := by
  funext pre problem post
  rw [after, after, after, List.append_assoc]

/-- From `q` before `cs`, the error lies behind some text, as `F` says. -/
def Behind (F : Fault) (q : Position) (cs : List Char) (e : SyntaxError) : Prop :=
  ∃ pre post, cs = pre ++ post ∧ e.position = q.advanceOver pre ∧ F pre e.problem post

/-- The deepest error of a trail lies `n` characters into the text, or deeper. -/
def Noted (n : Nat) (trail : List SyntaxError) : Prop := ∃ e ∈ trail.head?, n ≤ e.offset

/-- The second trail is as deep as the first, and what is new on it lies behind `q` as `F` says. -/
structure Marks (F : Fault) (q : Position) (cs : List Char) (trail trail' : List SyntaxError) :
    Prop where
  kept : ∀ n, Noted n trail → Noted n trail'
  new : ∀ e ∈ trail', e ∈ trail ∨ Behind F q cs e

/-- Every error of a production lies behind what was read before it, as `F` says. -/
structure Fails {α : Type} (P : Production α) (F : Fault) : Prop where
  ok : ∀ {p p' : Parse} {q : Position} {cs : List Char} {a : α}, p.cursor.Stands q cs →
    P p = .ok a p' → Marks F q cs p.trail p'.trail
  error : ∀ {p p' : Parse} {q : Position} {cs : List Char} {e : SyntaxError},
    p.cursor.Stands q cs → P p = .error e p' → Marks F q cs p.trail p'.trail ∧ Behind F q cs e

variable {α β : Type} {P : Production α} {Q : α → Production β} {Ps : List (Production α)}
  {R : Reading α} {F G : Fault} {p p' : Parse} {q : Position} {cs ds post : List Char}
  {e : SyntaxError} {trail trail' trail'' : List SyntaxError}

theorem Behind.mono (h : Behind F q cs e)
    (hF : ∀ pre problem post, F pre problem post → G pre problem post) : Behind G q cs e := by
  obtain ⟨pre, post, hcs, hplace, hf⟩ := h
  exact ⟨pre, post, hcs, hplace, hF _ _ _ hf⟩

/-- An error behind a later place lies behind the text in between as well. -/
theorem Behind.of_after (h : Behind (F.after ds) (q.advanceOver ds) post e) :
    Behind F q (ds ++ post) e := by
  obtain ⟨pre, post, rfl, hplace, hf⟩ := h
  refine ⟨ds ++ pre, post, (List.append_assoc ..).symm, ?_, hf⟩
  rw [hplace, advanceOver_append]

/-- No error lies before the place where its production began. -/
theorem Behind.offset_le (h : Behind F q cs e) : q.offset ≤ e.offset := by
  obtain ⟨pre, -, -, hplace, -⟩ := h
  rw [Located.offset, hplace, Position.offset_advanceOver]
  exact Nat.le_add_right _ _

theorem Marks.refl (trail : List SyntaxError) : Marks F q cs trail trail :=
  ⟨fun _ ↦ id, fun _ ↦ .inl⟩

theorem Marks.trans (h : Marks F q cs trail trail') (h' : Marks F q cs trail' trail'') :
    Marks F q cs trail trail'' := by
  refine ⟨fun n hn ↦ h'.kept n (h.kept n hn), ?_⟩
  intro e he
  rcases h'.new e he with he | hnew
  · exact h.new e he
  · exact .inr hnew

theorem Marks.of_after (h : Marks (F.after ds) (q.advanceOver ds) post trail trail') :
    Marks F q (ds ++ post) trail trail' :=
  ⟨h.kept, fun e he ↦ (h.new e he).imp_right Behind.of_after⟩

theorem Marks.mono (h : Marks F q cs trail trail')
    (hF : ∀ pre problem post, F pre problem post → G pre problem post) :
    Marks G q cs trail trail' :=
  ⟨h.kept, fun e he ↦ (h.new e he).imp_right (Behind.mono · hF)⟩

theorem Fails.mono (h : Fails P F)
    (hF : ∀ pre problem post, F pre problem post → G pre problem post) : Fails P G where
  ok hs hok := (h.ok hs hok).mono hF
  error hs herr := ⟨(h.error hs herr).1.mono hF, (h.error hs herr).2.mono hF⟩

/-! #### One production after another -/

/-- In a sequence the first production fails at once, or the second behind what the first read. -/
theorem Fails.bind (hP : Fails P F) (hR : Reads P R)
    (hQ : ∀ q ds a post, R q ds a post → Fails (Q a) (F.after ds)) : Fails (P >>= Q) F where
  ok {p p'' q cs b} hs hok := by
    cases hp : P p with
    | error e p' => rw [bind_error hp] at hok; cases hok
    | ok a p' =>
      rw [bind_ok hp] at hok
      obtain ⟨hkeeps, ds, post, rfl, hat, hr⟩ := hR.ok hs.toAt hp
      have hmarks := (hQ q ds a post hr).ok (hs.onward hkeeps hat) hok
      exact (hP.ok hs hp).trans hmarks.of_after
  error {p p'' q cs e} hs herr := by
    cases hp : P p with
    | error e' p' =>
      rw [bind_error hp] at herr
      cases herr
      exact hP.error hs hp
    | ok a p' =>
      rw [bind_ok hp] at herr
      obtain ⟨hkeeps, ds, post, rfl, hat, hr⟩ := hR.ok hs.toAt hp
      obtain ⟨hmarks, hbehind⟩ := (hQ q ds a post hr).error (hs.onward hkeeps hat) herr
      exact ⟨(hP.ok hs hp).trans hmarks.of_after, hbehind.of_after⟩

/-- A production that only moves the cursor has no errors. -/
theorem fails_of_moveTo (h : ∀ p, ∃ a c, P p = .ok a (p.moveTo c)) : Fails P F where
  ok {p p' q cs a} _ hok := by
    obtain ⟨a', c, hp⟩ := h p
    rw [hp] at hok
    cases hok
    exact .refl _
  error {p p' q cs e} _ herr := by
    obtain ⟨a', c, hp⟩ := h p
    rw [hp] at herr
    cases herr

theorem fails_pure (a : α) : Fails (pure a) F := fails_of_moveTo fun p ↦ ⟨a, p.cursor, rfl⟩

theorem Fails.map {f : α → β} (h : Fails P F) (hR : Reads P R) : Fails (f <$> P) F := by
  rw [map_eq_pure_bind]
  exact h.bind hR fun _ _ _ _ _ ↦ fails_pure _

theorem fails_optionally (kinds : List Kind) : Fails (optionally kinds) F := by
  refine fails_of_moveTo fun p ↦ ?_
  unfold optionally
  split
  · exact ⟨_, _, rfl⟩
  · exact ⟨none, p.cursor, rfl⟩

theorem fails_run (kinds : List Kind) : Fails (run kinds) F :=
  fails_of_moveTo fun _ ↦ ⟨_, _, rfl⟩

theorem fails_space : Fails space F := fails_of_moveTo fun _ ↦ ⟨_, _, rfl⟩

/-- A token is missed where a character of another kind, or none, comes next. -/
theorem fails_expect (kinds : List Kind) : Fails (expect kinds) fun pre problem post ↦
    pre = [] ∧ problem = .unexpected kinds (post.head?.map Kind.ofChar) ∧
      ∀ x ∈ post.head?, .ofChar x ∉ kinds where
  ok {p p' q cs t} hs hok := by
    rcases consumeIf_cases hs.toAt kinds with ⟨hc, -⟩ | ⟨x, rest, c', -, -, hc, -, -⟩
    · simp [expect, ofCursor, Cursor.expect, hc] at hok
    · simp only [expect, ofCursor, Cursor.expect, hc, EStateM.Result.ok.injEq] at hok
      obtain ⟨-, rfl⟩ := hok
      exact .refl _
  error {p p' q cs e} hs herr := by
    rcases consumeIf_cases hs.toAt kinds with ⟨hc, hn⟩ | ⟨x, rest, c', -, -, hc, -, -⟩
    · simp only [expect, ofCursor, Cursor.expect, hc, EStateM.Result.error.injEq] at herr
      obtain ⟨rfl, rfl⟩ := herr
      exact ⟨.refl _, [], cs, rfl, hs.place, rfl, by rw [hs.kind_peek], hn⟩
    · simp [expect, ofCursor, Cursor.expect, hc] at herr

/-! #### Attempts -/

/-- Of a trial, the trail and the errors told lie behind `q` as `F` says. -/
structure Tells {γ : Type} (F : Fault) (q : Position) (cs : List Char) (trail : List SyntaxError)
    (tried : Attempt Problem γ × Parse) : Prop where
  marks : Marks F q cs trail tried.2.trail
  errors : ∀ e ∈ tried.1.errors, Behind F q cs e

private theorem trail_record (e : SyntaxError) (p : Parse) :
    (p.record e).trail = p.trail ∧ Noted e.offset p.trail ∨
      (p.record e).trail = e :: p.trail ∧ ∀ n, Noted n p.trail → n ≤ e.offset := by
  unfold Parse.record Noted
  cases htrail : p.trail with
  | nil => exact .inr ⟨rfl, by simp⟩
  | cons deepest rest =>
    dsimp only
    split
    · next hle => exact .inl ⟨htrail, deepest, rfl, hle⟩
    · refine .inr ⟨rfl, ?_⟩
      rintro n ⟨_, ⟨⟩, hn⟩
      omega

/-- The trail is as deep as any error that was recorded. -/
theorem noted_record (e : SyntaxError) (p : Parse) : Noted e.offset (p.record e).trail := by
  rcases trail_record e p with ⟨htrail, hn⟩ | ⟨htrail, -⟩
  · rwa [htrail]
  · rw [htrail]
    exact ⟨e, rfl, Nat.le_refl _⟩

theorem Noted.mono {m n : Nat} (h : Noted n trail) (hle : m ≤ n) : Noted m trail := by
  obtain ⟨e, he, hn⟩ := h
  exact ⟨e, he, Nat.le_trans hle hn⟩

theorem Noted.record {n : Nat} (h : Noted n p.trail) (e : SyntaxError) :
    Noted n (p.record e).trail := by
  rcases trail_record e p with ⟨htrail, -⟩ | ⟨htrail, hdeeper⟩
  · rwa [htrail]
  · rw [htrail]
    exact ⟨e, rfl, hdeeper n h⟩

private theorem Behind.marks_record (h : Behind F q cs e) (p : Parse) :
    Marks F q cs p.trail (p.record e).trail := by
  refine ⟨fun n hn ↦ hn.record e, ?_⟩
  intro e' he
  rcases trail_record e p with ⟨htrail, -⟩ | ⟨htrail, -⟩
  · rw [htrail] at he
    exact .inl he
  · rw [htrail] at he
    rcases List.mem_cons.mp he with rfl | he
    · exact .inr h
    · exact .inl he

theorem stands_save (h : p.cursor.Stands q cs) :
    (p.moveTo p.cursor.save).cursor.Stands q cs :=
  ⟨⟨h.inside, h.ahead⟩, h.offset, h.ends⟩

/-- An attempt tells the error of its production. -/
theorem Fails.attempt (h : Fails P F) (hs : p.cursor.Stands q cs) :
    Tells F q cs p.trail (attempt P p) := by
  have hsave : (p.moveTo p.cursor.save).cursor.Stands q cs := stands_save hs
  cases hp : P (p.moveTo p.cursor.save) with
  | ok a p' =>
    have hmarks := h.ok hsave hp
    simp only [Production.attempt, hp]
    exact ⟨hmarks, by simp⟩
  | error e p' =>
    obtain ⟨hmarks, hbehind⟩ := h.error hsave hp
    simp only [Production.attempt, hp]
    exact ⟨hmarks.trans (hbehind.marks_record (p'.moveTo p'.cursor.restore)),
      by simpa using hbehind⟩

private theorem errors_attempt (h : (attempt P p).1.result = none) :
    (attempt P p).1.errors ≠ [] := by
  unfold attempt at h ⊢
  split at h
  · cases h
  · exact List.cons_ne_nil _ _

/-- A failed attempt leaves the cursor where it stood. -/
theorem stands_attempt (hR : Reads P R) (hs : p.cursor.Stands q cs)
    (h : (Production.attempt P p).1.result = none) :
    (Production.attempt P p).2.cursor.Stands q cs := by
  have ht := hR.attempt hs.toAt
  rw [Tried, h] at ht
  rw [show (Production.attempt P p).2.cursor = p.cursor from ht]
  exact hs

theorem Fails.optional (h : Fails P F) : Fails (optional P) F where
  ok {p p' q cs r} hs hok := by
    simp only [Production.optional, EStateM.Result.ok.injEq] at hok
    obtain ⟨-, rfl⟩ := hok
    exact (h.attempt hs).marks
  error {p p' q cs e} hs herr := by cases herr

/-! #### Choice -/

/-- A choice tells the errors of its alternatives. -/
theorem tells_firstOf (hF : ∀ P ∈ Ps, Fails P F) (hR : ∀ P ∈ Ps, Reads P R)
    (hs : p.cursor.Stands q cs) : Tells F q cs p.trail (firstOf Ps p) := by
  induction Ps generalizing p with
  | nil => exact ⟨.refl _, by simp [firstOf]⟩
  | cons P Ps ih =>
    have ht := (hF P List.mem_cons_self).attempt hs
    unfold firstOf
    split
    · next a errors p' hp => rwa [hp] at ht
    · next errors p' hp =>
      have hs' : p'.cursor.Stands q cs := by
        rwa [(hR P List.mem_cons_self).cursor_attempt hs.toAt hp]
      have ih' := ih (fun P' h ↦ hF P' (List.mem_cons_of_mem P h))
        (fun P' h ↦ hR P' (List.mem_cons_of_mem P h)) hs'
      rw [hp] at ht
      dsimp only
      split
      · exact ⟨ht.marks.trans ih'.marks, ih'.errors⟩
      · exact ⟨ht.marks.trans ih'.marks, List.forall_mem_append.mpr ⟨ht.errors, ih'.errors⟩⟩

private theorem errors_firstOf (hne : Ps ≠ []) (h : (firstOf Ps p).1.result = none) :
    (firstOf Ps p).1.errors ≠ [] := by
  cases Ps with
  | nil => exact absurd rfl hne
  | cons P Ps =>
    unfold firstOf at h ⊢
    split at h
    · cases h
    · next errors p' hp =>
      have he : errors ≠ [] := by
        have he := errors_attempt (P := P) (p := p) (by rw [hp])
        rwa [hp] at he
      dsimp only at h ⊢
      split at h
      · next hr => rw [hr] at h; cases h
      · simp [he]

theorem exists_deepest (errors : List SyntaxError) (h : errors ≠ []) :
    ∃ e ∈ errors, Located.deepest errors = some e := by
  have hfold (current : SyntaxError) (errors : List SyntaxError) :
      ∃ e ∈ current :: errors, errors.foldl Located.keepDeeper (some current) = some e := by
    induction errors generalizing current with
    | nil => exact ⟨current, List.mem_singleton_self _, rfl⟩
    | cons e errors ih =>
      rw [List.foldl_cons, Located.keepDeeper]
      split
      · obtain ⟨e', he', hf⟩ := ih current
        refine ⟨e', ?_, hf⟩
        rcases List.mem_cons.mp he' with rfl | he'
        · exact List.mem_cons_self
        · exact List.mem_cons_of_mem _ (List.mem_cons_of_mem _ he')
      · obtain ⟨e', he', hf⟩ := ih e
        exact ⟨e', List.mem_cons_of_mem _ he', hf⟩
  cases errors with
  | nil => exact absurd rfl h
  | cons e errors => exact hfold e errors

/-- A choice fails with an error of one of its alternatives. -/
theorem fails_oneOf {otherwise : Problem} (hne : Ps ≠ []) (hF : ∀ P ∈ Ps, Fails P F)
    (hR : ∀ P ∈ Ps, Reads P R) : Fails (oneOf Ps otherwise) F where
  ok {p p' q cs a} hs hok := by
    have ht := tells_firstOf hF hR hs
    simp only [oneOf, settle, Attempt.toExcept] at hok
    cases hr : (firstOf Ps p).1.result <;> simp only [hr] at hok
    · cases hok
    · cases hok
      exact ht.marks
  error {p p' q cs e} hs herr := by
    have ht := tells_firstOf hF hR hs
    simp only [oneOf, settle, Attempt.toExcept] at herr
    cases hr : (firstOf Ps p).1.result <;> simp only [hr] at herr
    · obtain ⟨e', he', hdeepest⟩ := exists_deepest _ (errors_firstOf hne hr)
      rw [hdeepest, Option.getD_some] at herr
      cases herr
      exact ⟨ht.marks, ht.errors _ he'⟩
    · cases herr

/-! #### Repetition -/

/-- A repetition tells the error of its production behind any number of texts that were read. -/
theorem tells_many (hR : Reads P R) (hs : p.cursor.Stands q cs)
    (hF : ∀ ds l post, cs = ds ++ post → Repeated R q ds l post → Fails P (F.after ds)) :
    Tells F q cs p.trail (many P p) := by
  fun_induction Production.many P p generalizing q cs F with
  | case1 p errors p' hp =>
    have ht := (hF [] [] cs rfl .nil).attempt hs
    rw [hp] at ht
    exact ⟨ht.marks, ht.errors⟩
  | case2 p a errors p' hp hlt others =>
    rename_i ih
    have ht := (hF [] [] cs rfl .nil).attempt hs
    rw [hp] at ht
    obtain ⟨hkeeps, pre, post, rfl, hat, hr⟩ := hR.took_attempt hs.toAt hp
    have ih' := ih (F := F.after pre) (hs.onward hkeeps hat) (by
      rintro ds l post' rfl hl
      rw [Fault.after_after]
      exact hF (pre ++ ds) (a :: l) post' (List.append_assoc ..).symm (.cons hr hl))
    exact ⟨ht.marks.trans ih'.marks.of_after, by simp⟩
  | case3 p a errors p' hp hge =>
    have ht := (hF [] [] cs rfl .nil).attempt hs
    rw [hp] at ht
    exact ⟨ht.marks, by simp⟩

/-- A repetition without a result has an error to tell. -/
theorem errors_many (h : (many P p).1.result = some []) : (many P p).1.errors ≠ [] := by
  unfold many at h ⊢
  split
  · next errors p' hp =>
    have he := errors_attempt (P := P) (p := p) (by rw [hp])
    rwa [hp] at he
  · next a errors p' hp =>
    rw [hp] at h
    dsimp only at h
    split at h <;> simp at h

end Production

end StyleCheck.Selector
