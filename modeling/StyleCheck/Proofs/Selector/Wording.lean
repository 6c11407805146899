import StyleCheck.Proofs.Selector.Rejection

/-!
# What errors say

Every error that the selector parser meets says the truth about the text at its place. The problems
that stand for no particular token are never met: where a choice or a repetition fails, one of its
parts has told a better one. Main statement: the wording of the error of a rejected text fits the
token at its place.
-/

namespace StyleCheck.Selector

open Grammar

/-- What a problem says of the characters ahead. Some problems are true of no text. -/
def Problem.Holds (ahead : List Char) : Problem → Prop
  | .unexpected allowed found =>
    found = ahead.head?.map Kind.ofChar ∧ ∀ kind ∈ found, kind ∉ allowed
  | .trailing found => ahead.head?.map Kind.ofChar = some found
  | .unterminatedString => ahead = []
  | .unknownOperator | .noAttributeValue | .noSelector | .emptyCompound => False

namespace Production

/-- The problem holds of the text ahead. -/
def truthful : Fault := fun _ problem ahead ↦ problem.Holds ahead

/-! ### Names and values -/

theorem truthful_expect (kinds : List Kind) : Fails (expect kinds) truthful := by
  refine (fails_expect kinds).mono ?_
  rintro pre problem post ⟨-, rfl, hpost⟩
  refine ⟨rfl, fun kind hkind ↦ ?_⟩
  obtain ⟨x, hx, rfl⟩ := Option.map_eq_some_iff.mp hkind
  exact hpost x hx

theorem truthful_name : Fails name truthful :=
  (truthful_expect _).bind (reads_expect _) fun _ _ _ _ _ ↦
    (fails_run _).bind (reads_run _) fun _ _ _ _ _ ↦ fails_pure _

theorem truthful_literal : Fails literal truthful := by
  refine (truthful_expect _).bind (reads_expect _) fun q _ opening _ _ ↦ ?_
  refine Fails.bind ((fails_closeQuote opening.char).mono ?_) (reads_closeQuote _)
    fun _ _ _ _ _ ↦ fails_pure _
  rintro pre problem post ⟨-, rfl, rfl⟩
  rfl

/-! ### Attribute conditions -/

/-- Whatever stands before `=` belongs to a comparison, so that no sign is unknown. -/
theorem truthful_comparison : Fails comparison truthful := by
  refine fails_space.bind reads_spaces fun _ _ _ _ _ ↦ ?_
  refine (fails_optionally _).bind (reads_optionally _) fun _ _ sign _ hsign ↦ ?_
  obtain ⟨comparison, hmeant, -⟩ := exists_comparison hsign
  refine Fails.bind (truthful_expect _) (reads_expect _) fun _ _ _ _ _ ↦ ?_
  simp only [hmeant]
  have hvalue : Fails attributeValue truthful :=
    fails_attributeValue_of truthful_literal truthful_name
  exact fails_space.bind reads_spaces fun _ _ _ _ _ ↦
    Fails.bind hvalue reads_attributeValue fun _ _ _ _ _ ↦ fails_pure _

theorem truthful_attributeTest : Fails attributeTest truthful :=
  truthful_name.bind reads_name fun _ _ _ _ _ ↦
    Fails.bind truthful_comparison.optional (reads_optional reads_comparison)
      fun _ _ _ _ _ ↦ fails_pure _

theorem truthful_attributeCondition : Fails attributeCondition truthful :=
  (truthful_expect _).bind (reads_expect _) fun _ _ _ _ _ ↦
    Fails.bind truthful_attributeTest reads_attributeTest fun _ _ _ _ _ ↦
      Fails.bind (truthful_expect _) (reads_expect _) fun _ _ _ _ _ ↦ fails_pure _

/-! ### Compounds and selectors -/

private theorem truthful_marked (k : Kind) (f : String → Simple) :
    Fails (do let _ ← expect [k]; return f (← name)) truthful :=
  (truthful_expect _).bind (reads_expect _) fun _ _ _ _ _ ↦
    truthful_name.bind reads_name fun _ _ _ _ _ ↦ fails_pure _

theorem truthful_simple : Fails simple truthful :=
  fails_simple_of (truthful_marked .hash _) (truthful_marked .period _)
    truthful_attributeCondition truthful_name

theorem truthful_compound : Fails compound truthful :=
  fails_compound_of_tells fun hs ↦ tells_many reads_simple hs fun _ _ _ _ _ ↦ truthful_simple

/-- The problem holds of the text ahead, or the error lies at least `depth` characters on. -/
def truthfulWithin (depth : Nat) : Fault := fun pre problem ahead ↦
  problem.Holds ahead ∨ depth ≤ pre.length

section

variable {α β : Type} {P : Production α} {Q : α → Production β} {R : Reading α}
  {right : Production Complex} {depth : Nat}

theorem Fails.truthfulWithin (h : Fails P truthful) : Fails P (truthfulWithin depth) :=
  h.mono fun _ _ _ ↦ .inl

private theorem Fails.bind_truthfulWithin (hP : Fails P truthful) (hR : Reads P R)
    (hQ : ∀ a, Fails (Q a) (Production.truthfulWithin depth)) :
    Fails (P >>= Q) (Production.truthfulWithin depth) := by
  refine hP.truthfulWithin.bind hR fun q ds a post _ ↦ (hQ a).mono ?_
  intro pre problem ahead
  refine Or.imp_right fun hle ↦ Nat.le_trans hle ?_
  rw [List.length_append]
  exact Nat.le_add_left _ _

-- The compound on the left is not empty, so what lies behind it lies one character further on.
private theorem Fails.bind_compound {Q : Compound → Production Complex}
    (hQ : ∀ left, Fails (Q left) (Production.truthfulWithin depth)) :
    Fails (compound >>= Q) (Production.truthfulWithin (depth + 1)) := by
  refine truthful_compound.truthfulWithin.bind reads_compound fun q ds left post hds ↦ ?_
  refine (hQ left).mono ?_
  intro pre problem ahead
  refine Or.imp_right fun hle ↦ ?_
  obtain ⟨x, xs, rfl, -⟩ := hds.exists_cons
  rw [List.length_append, List.length_cons]
  omega

variable (hright : Fails right (Production.truthfulWithin depth))
include hright

theorem truthful_signJoin (hreads : Reads right (ComplexText longest)) :
    Fails (signJoin right) (Production.truthfulWithin (depth + 1)) := by
  refine Fails.bind_compound fun _ ↦ ?_
  refine Fails.bind_truthfulWithin fails_space reads_spaces fun _ ↦ ?_
  refine Fails.bind_truthfulWithin (truthful_expect _) (reads_expect _) fun _ ↦ ?_
  refine Fails.bind_truthfulWithin fails_space reads_spaces fun _ ↦ ?_
  exact hright.bind hreads fun _ _ _ _ _ ↦ fails_pure _

theorem truthful_spaceJoin (hreads : Reads right (ComplexText longest)) :
    Fails (spaceJoin right) (Production.truthfulWithin (depth + 1)) := by
  refine Fails.bind_compound fun _ ↦ ?_
  refine Fails.bind_truthfulWithin (truthful_expect _) (reads_expect _) fun _ ↦ ?_
  refine Fails.bind_truthfulWithin fails_space reads_spaces fun _ ↦ ?_
  exact hright.bind hreads fun _ _ _ _ _ ↦ fails_pure _

end

/-- A selector says the truth as far as its depth goes. -/
theorem truthful_complexWithin (depth : Nat) :
    Fails (complexWithin depth) (truthfulWithin depth) := by
  induction depth with
  | zero => exact fails_complexWithin_zero fun _ ↦ .inr (Nat.le_refl 0)
  | succ depth ih =>
    have hreads := reads_complexWithin depth
    exact fails_complexWithin_succ (truthful_signJoin ih hreads) (truthful_spaceJoin ih hreads)
      truthful_compound.truthfulWithin

end Production

/-! ### The wording of the reported error -/

private theorem getElem?_tokensFrom (q : Position) (pre post : List Char) :
    ((tokensFrom q (pre ++ post))[pre.length]?).map Token.kind = post.head?.map Kind.ofChar := by
  induction pre generalizing q with
  | nil => cases post <;> rfl
  | cons c pre ih => exact ih (q.advance c)

/-- The problem of a rejected text holds at the place where it is reported. -/
theorem holds_of_parse_error {text : String} {e : SyntaxError} (h : parse text = .error e) :
    ∃ pre ahead, text.toList = pre ++ ahead ∧ e.offset = pre.length ∧ e.problem.Holds ahead := by
  have hfails := (Production.truthful_complexWithin (text.toList.length + 1)).wholeWithin
    fun _ _ _ _ _ _ ↦ .inl rfl
  obtain ⟨pre, ahead, htext, hplace, hholds⟩ := behind_of_parse_error h hfails
  refine ⟨pre, ahead, htext, ?_, hholds.resolve_right ?_⟩
  · rw [Located.offset, hplace, Position.offset_advanceOver]
    exact Nat.zero_add _
  · rw [htext, List.length_append]
    omega

/-- How the problems that hold of some text begin, whatever kinds are named behind. -/
private theorem Problem.Holds.take_describe {problem : Problem} {ahead : List Char}
    (h : problem.Holds ahead) : problem.describe.toList.take 10 = "Expected t".toList ∨
      problem.describe.toList.take 10 = "Expected e".toList ∨
      problem.describe.toList.take 10 = "Unterminat".toList := by
  have htake (s t : String) (hle : 10 ≤ s.toList.length) :
      (s ++ t).toList.take 10 = s.toList.take 10 := by
    rw [String.toList_append, List.take_append_of_le_length hle]
  cases problem with
  | unexpected allowed found =>
    left
    show ("Expected token of type " ++ _ ++ ", but got " ++ _).toList.take 10 = _
    rw [String.append_assoc, String.append_assoc, htake _ _ (by decide)]
    decide
  | trailing found =>
    right
    left
    show ("Expected end of input, but got token of type " ++ _).toList.take 10 = _
    rw [htake _ _ (by decide)]
    decide
  | unterminatedString => exact .inr (.inr (by decide))
  | _ => cases h

/-- No problem that holds of some text is worded like those that hold of none. -/
private theorem Problem.Holds.describe_not_mem {problem : Problem} {ahead : List Char}
    (h : problem.Holds ahead) : problem.describe ∉ ["Invalid attribute operator",
      "Expected string or name as attribute selector value", "Expected a selector",
      "Expected at least one selector"] := by
  intro hmem
  have hbegins := h.take_describe
  simp only [List.mem_cons, List.not_mem_nil, or_false] at hmem
  rcases hmem with heq | heq | heq | heq
  all_goals
    rw [heq] at hbegins
    revert hbegins
    decide

end StyleCheck.Selector
