import Mathlib.Logic.Basic
import StyleCheck.Proofs.Selector.Viability

/-!
# How far productions look

A production that neither came to the end of a text nor met an error there does not depend on what
follows the text. `Local` says so of two runs before texts that begin alike; it passes from the
parts of the selector parser to the whole.
-/

namespace StyleCheck.Selector.Production

open Grammar

variable {α β : Type} {P : Production α} {Q : α → Production β} {Ps : List (Production α)}
  {R : Reading α} {F : Fault} {p p' : Parse} {q : Position} {cs pre post u r r' : List Char}
  {n : Nat}

/-! ### Agreement -/

/-- A production ended at the character `n` or beyond, or it met an error there. -/
def Far (n : Nat) : EStateM.Result SyntaxError Parse α → Prop
  | .ok _ p => n ≤ p.cursor.position ∨ Noted n p.trail
  | .error e p => n ≤ e.offset ∨ Noted n p.trail

/-- Two results before `u` in front of `r` and of `r'` are the same: the same value with the same
rest of `u` ahead, or errors both. -/
inductive Agree (q : Position) (u r r' : List Char) :
    EStateM.Result SyntaxError Parse α → EStateM.Result SyntaxError Parse α → Prop
  | ok {pre post : List Char} {a : α} {p p' : Parse} (split : u = pre ++ post)
      (left : p.cursor.Stands (q.advanceOver pre) (post ++ r))
      (right : p'.cursor.Stands (q.advanceOver pre) (post ++ r')) :
      Agree q u r r' (.ok a p) (.ok a p')
  | error {e e' : SyntaxError} {p p' : Parse} : Agree q u r r' (.error e p) (.error e' p')

/-- Results that agree behind a common text agree from before it. -/
theorem Agree.of_after {result result' : EStateM.Result SyntaxError Parse α}
    (h : Agree (q.advanceOver pre) post r r' result result') :
    Agree q (pre ++ post) r r' result result' := by
  cases h with
  | error => exact .error
  | @ok pre' post' a s s' split left right =>
    rw [← advanceOver_append] at left right
    refine .ok ?_ left right
    rw [split, List.append_assoc]

/-- A parse that is far stays far. -/
theorem far_of_far (hR : Reads P R) (hF : Fails P F) (hs : p.cursor.Stands q cs)
    (hn : n ≤ p.cursor.position ∨ Noted n p.trail) : Far n (P p) := by
  cases hp : P p with
  | ok a p' =>
    have hforward := (hR.ok hs.toAt hp).1.forward
    exact hn.imp (Nat.le_trans · hforward) ((hF.ok hs hp).kept n)
  | error e p' =>
    obtain ⟨hmarks, hbehind⟩ := hF.error hs hp
    have hoffset := hbehind.offset_le
    rw [← hs.offset] at hoffset
    exact hn.imp (Nat.le_trans · hoffset) (hmarks.kept n)

/-- The production reads on from true places, and unless it is far it does before any text what it
does before another that begins alike. -/
structure Local (P : Production α) : Prop where
  reads : Reads P fun _ _ _ _ ↦ True
  fails : Fails P fun _ _ _ ↦ True
  agree : ∀ (p p' : Parse) (q : Position) (u r r' : List Char),
    p.cursor.Stands q (u ++ r) → p'.cursor.Stands q (u ++ r') →
      Far (q.offset + u.length) (P p) ∨ Agree q u r r' (P p) (P p')

/-- In a sequence, what the first production reads may be taken into account. -/
theorem Local.bind_of_reads (hP : Local P) (hR : Reads P R)
    (hreads : ∀ a, Reads (Q a) fun _ _ _ _ ↦ True)
    (hQ : ∀ q ds a post, R q ds a post → Local (Q a)) : Local (P >>= Q) where
  reads := (hR.bind hreads).mono fun _ _ _ _ _ ↦ trivial
  fails := hP.fails.bind hR fun q ds a post hr ↦ (hQ q ds a post hr).fails
  agree p p' q u r r' hs hs' := by
    have hlocal {a : α} {s : Parse} (hp : P p = .ok a s) : Local (Q a) := by
      obtain ⟨-, pre, post, -, -, hr⟩ := hR.ok hs.toAt hp
      exact hQ _ _ _ _ hr
    rcases hP.agree _ _ _ _ _ _ hs hs' with hfar | hagree
    · left
      cases hp : P p with
      | error e s =>
        rw [hp] at hfar
        rwa [bind_error hp]
      | ok a s =>
        rw [hp] at hfar
        rw [bind_ok hp]
        obtain ⟨hkeeps, pre, post, hu, hat, -⟩ := hR.ok hs.toAt hp
        have hstands : s.cursor.Stands (q.advanceOver pre) post := (hu ▸ hs).onward hkeeps hat
        exact far_of_far (hlocal hp).reads (hlocal hp).fails hstands hfar
    · generalize hp : P p = result at hagree
      generalize hp' : P p' = result' at hagree
      cases hagree with
      | error =>
        rw [bind_error hp, bind_error hp']
        exact .inr .error
      | @ok pre post a s s' split left right =>
        rw [bind_ok hp, bind_ok hp', split]
        have hn : (q.advanceOver pre).offset + post.length = q.offset + (pre ++ post).length := by
          rw [Position.offset_advanceOver, List.length_append]
          omega
        rw [← hn]
        exact ((hlocal hp).agree _ _ _ _ _ _ left right).imp_right Agree.of_after

theorem Local.bind (hP : Local P) (hQ : ∀ a, Local (Q a)) : Local (P >>= Q) :=
  hP.bind_of_reads hP.reads (fun a ↦ (hQ a).reads) fun _ _ a _ _ ↦ hQ a

/-! ### Single tokens and runs -/

private theorem agree_of_accepts {a : α} (hu : u = pre ++ post) (h : Accepts P q pre a (post ++ r))
    (h' : Accepts P q pre a (post ++ r')) (hs : p.cursor.Stands q (u ++ r))
    (hs' : p'.cursor.Stands q (u ++ r')) : Agree q u r r' (P p) (P p') := by
  rw [hu, List.append_assoc] at hs hs'
  obtain ⟨s, hp, hkeeps, hat⟩ := h p hs.toAt
  obtain ⟨s', hp', hkeeps', hat'⟩ := h' p' hs'.toAt
  rw [hp, hp']
  exact .ok hu (hs.onward hkeeps hat) (hs'.onward hkeeps' hat')

/-- A production is local that does the same before any two texts of one first character. -/
theorem local_of_head (hR : Reads P R) (hF : Fails P F)
    (h : ∀ (p p' : Parse) (q : Position) (x : Char) (u r r' : List Char),
      p.cursor.Stands q (x :: u ++ r) → p'.cursor.Stands q (x :: u ++ r') →
        Agree q (x :: u) r r' (P p) (P p')) : Local P where
  reads := hR.mono fun _ _ _ _ _ ↦ trivial
  fails := hF.mono fun _ _ _ _ ↦ trivial
  agree p p' q u r r' hs hs' := by
    cases u with
    | cons x u => exact .inr (h _ _ _ _ _ _ _ hs hs')
    | nil => exact .inl (far_of_far hR hF hs (.inl (Nat.le_of_eq hs.offset.symm)))

theorem local_pure (a : α) : Local (pure a) where
  reads := (Reads.pure a).mono fun _ _ _ _ _ ↦ trivial
  fails := fails_pure a
  agree _ _ _ u _ _ hs hs' :=
    .inr (agree_of_accepts (List.nil_append u).symm (.pure a) (.pure a) hs hs')

theorem Local.map {f : α → β} (h : Local P) : Local (f <$> P) := by
  rw [map_eq_pure_bind]
  exact h.bind fun a ↦ local_pure (f a)

theorem local_expect (kinds : List Kind) : Local (expect kinds) := by
  refine local_of_head (reads_expect kinds) (fails_expect kinds) ?_
  intro p p' q x u r r' hs hs'
  by_cases hk : .ofChar x ∈ kinds
  · have hu : x :: u = [x] ++ u := rfl
    exact agree_of_accepts hu (accepts_expect hk) (accepts_expect hk) hs hs'
  · obtain ⟨e, s, hp, -⟩ := refuses_expect (by simpa using hk) p q hs.toAt
    obtain ⟨e', s', hp', -⟩ := refuses_expect (by simpa using hk) p' q hs'.toAt
    rw [hp, hp']
    exact .error

theorem local_optionally (kinds : List Kind) : Local (optionally kinds) := by
  refine local_of_head (F := fun _ _ _ ↦ True) (reads_optionally kinds) (fails_optionally kinds) ?_
  intro p p' q x u r r' hs hs'
  by_cases hk : .ofChar x ∈ kinds
  · have hu : x :: u = [x] ++ u := rfl
    exact agree_of_accepts hu (accepts_optionally_some hk) (accepts_optionally_some hk) hs hs'
  · have hu : x :: u = [] ++ x :: u := rfl
    have hnone (rest : List Char) : Accepts (optionally kinds) q [] none (x :: u ++ rest) :=
      accepts_optionally_none (by simpa using hk)
    exact agree_of_accepts hu (hnone r) (hnone r') hs hs'

/-- A production whose errors lie at the end of the text is local if of what it reads only the text
and the first character behind it matter. -/
private theorem local_of_accepts (hR : Reads P R)
    (hF : Fails P fun _ _ post ↦ post = [])
    (hok : ∀ (q : Position) (pre post post' : List Char) (a : α) (x : Char),
      R q pre a (x :: post) → Accepts P q pre a (x :: post')) : Local P where
  reads := hR.mono fun _ _ _ _ _ ↦ trivial
  fails := hF.mono fun _ _ _ _ ↦ trivial
  agree p p' q u r r' hs hs' := by
    cases hp : P p with
    | error e s =>
      obtain ⟨-, pre, post, hcs, hplace, rfl⟩ := hF.error hs hp
      have hlength := congrArg List.length hcs
      simp only [List.length_append, List.length_nil] at hlength
      left
      left
      rw [Located.offset, hplace, Position.offset_advanceOver]
      omega
    | ok a s =>
      obtain ⟨hkeeps, pre, post, hu, hat, hr⟩ := hR.ok hs.toAt hp
      have hstands : s.cursor.Stands (q.advanceOver pre) post := (hu ▸ hs).onward hkeeps hat
      by_cases hle : u.length ≤ pre.length
      · left
        left
        rw [hstands.offset, Position.offset_advanceOver]
        omega
      · right
        obtain ⟨x, rest, rfl, rfl⟩ : ∃ x rest, u = pre ++ x :: rest ∧ post = x :: rest ++ r := by
          rcases List.append_eq_append_iff.mp hu with ⟨rest, rfl, -⟩ | ⟨rest, rfl, rfl⟩
          · simp at hle
          · cases rest with
            | nil => simp at hle
            | cons x rest => exact ⟨x, rest, rfl, rfl⟩
        rw [← hp]
        exact agree_of_accepts rfl (hok _ _ _ _ _ _ hr) (hok _ _ _ _ _ _ hr) hs hs'

theorem local_run (kinds : List Kind) : Local (run kinds) := by
  refine local_of_accepts (reads_run kinds) (fails_run kinds) ?_
  rintro q pre post post' _ x ⟨rfl, hr, hn⟩
  exact accepts_run hr (by simpa using hn)

theorem local_space : Local space := (local_run [.whitespace]).bind fun _ ↦ local_pure ()

private theorem local_closeQuote (quote : Char) : Local (closeQuote quote) := by
  refine local_of_accepts (reads_closeQuote quote) ((fails_closeQuote quote).mono ?_) ?_
  · rintro pre problem post ⟨-, hpost, -⟩
    exact hpost
  · rintro q _ post post' _ x ⟨inner, hquote, hin, rfl, rfl⟩
    exact accepts_closeQuote hquote hin

/-! ### Attempts -/

theorem Local.optional (h : Local P) : Local (optional P) where
  reads := (reads_optional h.reads).mono fun _ _ _ _ _ ↦ trivial
  fails := h.fails.optional
  agree p p' q u r r' hs hs' := by
    have hback := stands_attempt h.reads hs
    have hback' := stands_attempt h.reads hs'
    have hP := h.agree _ _ _ _ _ _ (stands_save hs) (stands_save hs')
    rw [Production.optional, Production.optional]
    unfold attempt at hback hback' ⊢
    rcases hP with hfar | hagree
    · left
      cases hp : P (p.moveTo p.cursor.save) with
      | ok a s =>
        rw [hp] at hfar
        exact hfar
      | error e s =>
        rw [hp] at hfar
        right
        rcases hfar with hn | hn
        · exact (noted_record e _).mono hn
        · exact Noted.record (p := s.moveTo s.cursor.restore) hn e
    · right
      generalize P (p.moveTo p.cursor.save) = result at hagree hback ⊢
      generalize P (p'.moveTo p'.cursor.save) = result' at hagree hback' ⊢
      cases hagree with
      | @ok pre post a s s' split left right =>
        exact .ok split ⟨⟨left.inside, left.ahead⟩, left.offset, left.ends⟩
          ⟨⟨right.inside, right.ahead⟩, right.offset, right.ends⟩
      | error => exact .ok (List.nil_append u).symm (hback rfl) (hback' rfl)

/-! ### Choice -/

/-- The result of the first of several productions that succeeds. -/
private def firstResult (Ps : List (Production α)) : Production (Option α) :=
  fun p ↦ .ok (firstOf Ps p).1.result (firstOf Ps p).2

private theorem firstResult_cons (P : Production α) (Ps : List (Production α)) :
    firstResult (P :: Ps) = (do
      match ← optional P with
      | some a => return some a
      | none => firstResult Ps) := by
  funext p
  show firstResult (P :: Ps) p = EStateM.bind _ _ p
  rw [EStateM.bind, firstResult, optional, firstOf]
  rcases attempt P p with ⟨⟨_ | a, errors⟩, p'⟩
  · dsimp only [firstResult]
    split
    · rfl
    · next h => rw [h]
  · rfl

private theorem local_firstResult (h : ∀ P ∈ Ps, Local P) : Local (firstResult Ps) := by
  induction Ps with
  | nil => exact local_pure none
  | cons P Ps ih =>
    rw [firstResult_cons]
    refine (h P List.mem_cons_self).optional.bind fun found ↦ ?_
    cases found with
    | some a => exact local_pure _
    | none => exact ih fun P' hP ↦ h P' (List.mem_cons_of_mem P hP)

/-- A production is local that succeeds where a local one has a result, and fails where it has none
and has read nothing. -/
private theorem local_of_result {T : Production (Option α)} (hT : Local T) (hR : Reads P R)
    (hF : Fails P F)
    (h : ∀ (p : Parse) (q : Position) (cs : List Char), p.cursor.At q cs →
      (∃ a s, T p = .ok (some a) s ∧ P p = .ok a s) ∨
        ∃ e s, T p = .ok none s ∧ P p = .error e s ∧ s.cursor.position = p.cursor.position) :
    Local P where
  reads := hR.mono fun _ _ _ _ _ ↦ trivial
  fails := hF.mono fun _ _ _ _ ↦ trivial
  agree p p' q u r r' hs hs' := by
    have hagree := hT.agree _ _ _ _ _ _ hs hs'
    rcases h p _ _ hs.toAt with ⟨a, s, ht, hp⟩ | ⟨e, s, ht, hp, hplace⟩
    · rw [ht] at hagree
      rw [hp]
      refine hagree.imp id fun hagree ↦ ?_
      rcases h p' _ _ hs'.toAt with ⟨a', s', ht', hp'⟩ | ⟨e', s', ht', hp', -⟩
      · rw [ht'] at hagree
        rw [hp']
        cases hagree with
        | ok split left right => exact .ok split left right
      · rw [ht'] at hagree
        cases hagree
    · rw [ht] at hagree
      rw [hp]
      have hbehind := (hF.error hs hp).2.offset_le
      rw [← hs.offset, ← hplace] at hbehind
      refine hagree.imp (·.imp_left (Nat.le_trans · hbehind)) fun hagree ↦ ?_
      rcases h p' _ _ hs'.toAt with ⟨a', s', ht', hp'⟩ | ⟨e', s', ht', hp', -⟩
      · rw [ht'] at hagree
        cases hagree
      · rw [hp']
        exact .error

theorem local_oneOf {otherwise : Problem} (hne : Ps ≠ []) (h : ∀ P ∈ Ps, Local P) :
    Local (oneOf Ps otherwise) := by
  have hreads : ∀ P ∈ Ps, Reads P fun _ _ _ _ ↦ True := fun P hP ↦ (h P hP).reads
  have hfails : ∀ P ∈ Ps, Fails P fun _ _ _ ↦ True := fun P hP ↦ (h P hP).fails
  have hfirst : Local (firstResult Ps) := local_firstResult h
  refine local_of_result hfirst (reads_oneOf hreads) (fails_oneOf hne hfails hreads) ?_
  intro p q cs hat
  have ht := reads_firstOf hreads hat
  unfold Tried at ht
  unfold firstResult oneOf settle Attempt.toExcept
  cases hr : (firstOf Ps p).1.result with
  | some a => exact .inl ⟨a, _, rfl, rfl⟩
  | none =>
    simp only [hr] at ht
    exact .inr ⟨_, _, rfl, rfl, congrArg Cursor.position ht⟩

/-! ### Repetition -/

/-- The results of a production that is repeated until it fails or reads nothing. -/
private def repeatedResults (P : Production α) : Production (List α) :=
  fun p ↦ .ok ((many P p).1.result.getD []) (many P p).2

private theorem reads_repeatedResults (h : Reads P R) :
    Reads (repeatedResults P) (Repeated R) where
  ok {p p' q cs l} hat hok := by
    obtain ⟨l', hl, htook⟩ := h.many hat
    simp only [repeatedResults, hl, Option.getD_some, EStateM.Result.ok.injEq] at hok
    obtain ⟨rfl, rfl⟩ := hok
    exact htook
  error _ herr := by cases herr

private theorem Local.far_repeatedResults (h : Local P) (hs : p.cursor.Stands q cs)
    (hn : n ≤ p.cursor.position ∨ Noted n p.trail) : Far n (repeatedResults P p) := by
  have hforward := ((reads_repeatedResults h.reads).ok hs.toAt rfl).1.forward
  have hmarks := (tells_many h.reads hs (F := fun _ _ _ ↦ True) fun _ _ _ _ _ ↦ h.fails).marks
  exact hn.imp (Nat.le_trans · hforward) (hmarks.kept n)

private theorem repeatedResults_of_none (h : optional P p = .ok none p') :
    repeatedResults P p = .ok [] p' := by
  unfold optional at h
  unfold repeatedResults many
  rcases ht : attempt P p with ⟨⟨_ | a, errors⟩, s⟩
  · rw [ht] at h
    cases h
    rfl
  · rw [ht] at h
    cases h

private theorem repeatedResults_of_some {a : α} (h : optional P p = .ok (some a) p') :
    repeatedResults P p =
      if p'.cursor.remaining < p.cursor.remaining then ((a :: ·) <$> repeatedResults P) p'
      else .ok [a] p' := by
  unfold optional at h
  rw [repeatedResults, many]
  rcases ht : attempt P p with ⟨⟨_ | a, errors⟩, s⟩
  · rw [ht] at h
    cases h
  · rw [ht] at h
    cases h
    dsimp only
    split <;> rfl

private theorem Agree.cons_result {a : α}
    (h : Agree q u r r' (repeatedResults P p) (repeatedResults P p')) :
    Agree q u r r' (((a :: ·) <$> repeatedResults P) p) (((a :: ·) <$> repeatedResults P) p') := by
  show Agree q u r r' (.ok (a :: (many P p).1.result.getD []) _)
    (.ok (a :: (many P p').1.result.getD []) _)
  unfold repeatedResults at h
  generalize (many P p).1.result.getD [] = l at h ⊢
  generalize (many P p').1.result.getD [] = l' at h ⊢
  cases h with
  | ok split left right => exact .ok split left right

private theorem remaining_lt_iff {q' : Position} (split : u = pre ++ post)
    (hs : p.cursor.Stands q (u ++ r)) (hs' : p'.cursor.Stands q' (post ++ r)) :
    p'.cursor.remaining < p.cursor.remaining ↔ 0 < pre.length := by
  rw [hs'.toAt.remaining, hs.toAt.remaining, split]
  simp only [List.length_append]
  omega

private theorem Local.agree_repeatedResults (h : Local P) (hs : p.cursor.Stands q (u ++ r))
    (hs' : p'.cursor.Stands q (u ++ r')) :
    Far (q.offset + u.length) (repeatedResults P p) ∨
      Agree q u r r' (repeatedResults P p) (repeatedResults P p') := by
  induction hm : u.length using Nat.strongRecOn generalizing p p' q u with
  | ind m ih =>
    subst hm
    have hP := h.optional.agree _ _ _ _ _ _ hs hs'
    obtain ⟨found, s, ht⟩ : ∃ found s, Production.optional P p = .ok found s := ⟨_, _, rfl⟩
    obtain ⟨found', s', ht'⟩ : ∃ found s, Production.optional P p' = .ok found s := ⟨_, _, rfl⟩
    obtain ⟨hkeeps, pre, post, hu, hat, -⟩ := h.optional.reads.ok hs.toAt ht
    have hstands : s.cursor.Stands (q.advanceOver pre) post := (hu ▸ hs).onward hkeeps hat
    rw [ht, ht'] at hP
    rcases hP with hfar | hagree
    · left
      cases found with
      | none => rwa [repeatedResults_of_none ht]
      | some a =>
        rw [repeatedResults_of_some ht]
        split
        · exact h.far_repeatedResults hstands hfar
        · exact hfar
    · cases hagree with
      | @ok pre post _ _ _ split left right =>
        cases found with
        | none =>
          rw [repeatedResults_of_none ht, repeatedResults_of_none ht']
          exact .inr (.ok split left right)
        | some a =>
          -- Both read the same text, so both have come further or neither has.
          have hlt := remaining_lt_iff split hs left
          have hlt' := remaining_lt_iff split hs' right
          rw [repeatedResults_of_some ht, repeatedResults_of_some ht', if_congr hlt rfl rfl,
            if_congr hlt' rfl rfl]
          by_cases hpos : 0 < pre.length
          · rw [if_pos hpos, if_pos hpos]
            have hshorter : post.length < u.length := by
              rw [split, List.length_append]
              omega
            have hn : (q.advanceOver pre).offset + post.length = q.offset + u.length := by
              rw [Position.offset_advanceOver, split, List.length_append]
              omega
            rcases ih _ hshorter left right rfl with hfar | hagree
            · rw [hn] at hfar
              exact .inl hfar
            · rw [split]
              exact .inr (Agree.of_after hagree.cons_result)
          · rw [if_neg hpos, if_neg hpos]
            exact .inr (.ok split left right)

private theorem local_repeatedResults (h : Local P) : Local (repeatedResults P) where
  reads := (reads_repeatedResults h.reads).mono fun _ _ _ _ _ ↦ trivial
  fails := by
    refine ⟨?_, ?_⟩
    · intro p p' q cs l hs hok
      cases hok
      exact (tells_many h.reads hs (F := fun _ _ _ ↦ True) fun _ _ _ _ _ ↦ h.fails).marks
    · intro p p' q cs e _ herr
      cases herr
  agree _ _ _ _ _ _ hs hs' := h.agree_repeatedResults hs hs'

/-! ### The productions of a selector -/

theorem local_name : Local name :=
  (local_expect _).bind fun _ ↦ (local_run _).bind fun _ ↦ local_pure _

theorem local_literal : Local literal :=
  (local_expect _).bind fun _ ↦ (local_closeQuote _).bind fun _ ↦ local_pure _

theorem local_attributeValue : Local attributeValue := by
  refine local_oneOf (List.cons_ne_nil _ _) ?_
  simp only [List.forall_mem_cons, List.not_mem_nil, false_implies, implies_true, and_true]
  exact ⟨local_literal.map, local_name.map⟩

theorem local_comparison : Local comparison := by
  refine local_space.bind fun _ ↦ ?_
  refine (local_optionally _).bind_of_reads (reads_optionally _) (fun sign ↦ ?_) ?_
  · exact ((reads_expect _).bind fun _ ↦ reads_compared _ _).mono fun _ _ _ _ _ ↦ trivial
  · intro q ds sign post hsign
    obtain ⟨comparison, hmeant, -⟩ := exists_comparison hsign
    refine (local_expect _).bind fun equals ↦ ?_
    simp only [hmeant]
    exact local_space.bind fun _ ↦ local_attributeValue.bind fun _ ↦ local_pure _

theorem local_attributeTest : Local attributeTest :=
  local_name.bind fun _ ↦ local_comparison.optional.bind fun _ ↦ local_pure _

theorem local_attributeCondition : Local attributeCondition :=
  (local_expect _).bind fun _ ↦ local_attributeTest.bind fun _ ↦ (local_expect _).bind fun _ ↦
    local_pure _

theorem local_simple : Local simple := by
  refine local_oneOf (List.cons_ne_nil _ _) ?_
  simp only [List.forall_mem_cons, List.not_mem_nil, false_implies, implies_true, and_true]
  refine ⟨?_, ?_, local_attributeCondition, local_name.map⟩
  · exact (local_expect _).bind fun _ ↦ local_name.bind fun _ ↦ local_pure _
  · exact (local_expect _).bind fun _ ↦ local_name.bind fun _ ↦ local_pure _

/-- A compound of some conditions, if there are any. -/
private def compoundOf? : List Simple → Option Compound
  | [] => none
  | first :: rest => some ⟨first :: rest⟩

theorem local_compound : Local compound := by
  have hresult := (local_repeatedResults local_simple).map (f := compoundOf?)
  refine local_of_result hresult reads_compound fails_compound ?_
  intro p q cs hat
  obtain ⟨l, hl, hkeeps, pre, post, hcs, hat', hread⟩ := reads_simple.many hat
  have hresults : repeatedResults simple p = .ok l (many simple p).2 := by
    rw [repeatedResults, hl]
    rfl
  cases l with
  | cons first rest =>
    refine .inl ⟨⟨first :: rest⟩, (many simple p).2, ?_, ?_⟩
    · simp [Functor.map, EStateM.map, hresults, compoundOf?]
    · simp [compound, hl]
  | nil =>
    refine .inr ⟨(Located.deepest (many simple p).1.errors).getD ⟨.emptyCompound, p.cursor.place⟩,
      (many simple p).2, ?_, ?_, ?_⟩
    · simp [Functor.map, EStateM.map, hresults, compoundOf?]
    · simp [compound, hl]
    · cases hread
      have hremaining : (many simple p).2.cursor.remaining = p.cursor.remaining := by
        rw [hat'.remaining, hat.remaining, hcs, List.nil_append]
      have hinside := hat.inside
      have hinside' := hat'.inside
      rw [Cursor.remaining, Cursor.remaining, hkeeps.tokens] at hremaining
      rw [hkeeps.tokens] at hinside'
      omega

section

variable {right : Production Complex} (h : Local right)
include h

theorem Local.signJoin : Local (signJoin right) :=
  local_compound.bind fun _ ↦ local_space.bind fun _ ↦ (local_expect _).bind fun _ ↦
    local_space.bind fun _ ↦ h.bind fun _ ↦ local_pure _

theorem Local.spaceJoin : Local (spaceJoin right) :=
  local_compound.bind fun _ ↦ (local_expect _).bind fun _ ↦ local_space.bind fun _ ↦
    h.bind fun _ ↦ local_pure _

end

/-- At any depth, whether and what selector is read depends on the text up to the deepest error. -/
theorem local_complexWithin (depth : Nat) : Local (complexWithin depth) := by
  induction depth with
  | zero =>
    refine ⟨(reads_complexWithin 0).mono fun _ _ _ _ _ ↦ trivial,
      (fails_complexWithin 0).mono fun _ _ _ _ ↦ trivial, ?_⟩
    intro p p' q u r r' _ _
    exact .inr .error
  | succ depth ih =>
    refine local_oneOf (List.cons_ne_nil _ _) ?_
    simp only [List.forall_mem_cons, List.not_mem_nil, false_implies, implies_true, and_true]
    exact ⟨ih.signJoin, ih.spaceJoin, local_compound.map⟩

end StyleCheck.Selector.Production
