import Mathlib.Control.Monad.Basic
import StyleCheck.Proofs.Selector.Acceptance
import StyleCheck.Selector.Specificity

/-!
# Weights of selector texts

The weight read off a text, against the weight of the selector that the text stands for. The text
is cut at whitespace first and the parts are read afterwards; both passes go over a condition of
the grammar in one step, whatever its brackets and quotes hold. Main statement: a text that parses
weighs as much as the selector parsed from it.
-/

namespace StyleCheck.Selector

open Grammar

/-! ### Sums -/

namespace Specificity

theorem add_assoc (a b c : Specificity) : (a.add b).add c = a.add (b.add c) := by
  simp only [add, Nat.add_assoc]

@[simp]
theorem zero_add (a : Specificity) : zero.add a = a := by
  simp only [add, zero, Nat.zero_add]

@[simp]
theorem add_zero (a : Specificity) : a.add zero = a := rfl

private theorem foldl_add (a : Specificity) (l : List Specificity) :
    l.foldl add a = a.add (sum l) := by
  induction l generalizing a with
  | nil => rfl
  | cons b l ih =>
    rw [sum, List.foldl_cons, List.foldl_cons, ih, ih (zero.add b), zero_add, add_assoc]

@[simp]
theorem sum_nil : sum [] = zero := rfl

@[simp]
theorem sum_cons (a : Specificity) (l : List Specificity) : sum (a :: l) = a.add (sum l) := by
  rw [sum, List.foldl_cons, foldl_add, zero_add]

theorem sum_append (l m : List Specificity) : sum (l ++ m) = (sum l).add (sum m) := by
  rw [sum, List.foldl_append, foldl_add]
  rfl

end Specificity

theorem Compound.specificity_cons (s : Simple) (l : List Simple) :
    (Compound.mk (s :: l)).specificity = s.specificity.add (Compound.mk l).specificity :=
  Specificity.sum_cons _ _

-- What ties a compound to the one before it has no weight.
private theorem Complex.sum_linksAfter (before : Option Combinator) (s : Complex) :
    Specificity.sum ((s.linksAfter before).map fun link ↦ link.compound.specificity) =
      s.specificity := by
  cases s with
  | compound c => rfl
  | joined operator left right => rfl

theorem Complex.specificity_compound (c : Compound) :
    (Complex.compound c).specificity = c.specificity := by
  rw [Complex.specificity, Complex.chain, Complex.linksAfter, List.map_singleton,
    Specificity.sum_cons, Specificity.sum_nil, Specificity.add_zero]

theorem Complex.specificity_joined (operator : Token) (left : Compound) (right : Complex) :
    (Complex.joined operator left right).specificity =
      left.specificity.add right.specificity := by
  rw [Complex.specificity, Complex.chain, Complex.linksAfter, List.map_cons, Specificity.sum_cons,
    sum_linksAfter]

namespace Weigh

variable {acc cs ds ws after rest inner : List Char} {c q : Char} {s : Simple} {l : List Simple}

/-! ### Classes of characters -/

/-- Neither a quotation mark nor a bracket of any kind. -/
def Plain (c : Char) : Prop :=
  ¬ (c = '"' ∨ c = '\'') ∧ ¬ (c = '[' ∨ c = '(') ∧ ¬ (c = ']' ∨ c = ')')

/-- A name does not go on here. -/
def EndsName (cs : List Char) : Prop := ∀ c ∈ cs.head?, isNameChar c = false ∧ c ≠ '\\'

private theorem plain_of_continuesName (h : continuesName c) : Plain c := by
  refine ⟨?_, ?_, ?_⟩ <;> rintro (rfl | rfl) <;> exact absurd h (by decide)

theorem plain_of_isSpace (h : Text.isSpace c) : Plain c := by
  refine ⟨?_, ?_, ?_⟩ <;> rintro (rfl | rfl) <;> exact absurd h (by decide)

private theorem isNameChar_of_continuesName (h : continuesName c) : isNameChar c := by
  simp only [continuesName, Bool.or_eq_true, beq_iff_eq] at h
  simp only [isNameChar, Char.isAlphanum, Bool.or_eq_true, beq_iff_eq]
  exact .inl h

/-- The first bounds of the property `Alphabetic` are those of the ASCII letters. -/
theorem isAlphabetic_of_isAlpha (h : c.isAlpha) : Text.isAlphabetic c := by
  obtain ⟨bounds, hbounds⟩ : ∃ bounds, Text.alphabeticBounds = 65 :: 91 :: 97 :: 123 :: bounds :=
    ⟨_, rfl⟩
  rw [isAlpha_iff] at h
  simp only [Text.isAlphabetic, Text.memberOf, hbounds, Text.memberFrom]
  rcases h with h | h
  · rw [if_neg (by omega), if_pos (by omega)]
    rfl
  · rw [if_neg (by omega), if_neg (by omega), if_neg (by omega), if_pos (by omega)]
    rfl

/-! ### Names and groups -/

theorem spanName_of_endsName (h : EndsName rest) : spanName rest = ([], rest) := by
  cases rest with
  | nil => rfl
  | cons c rest =>
    obtain ⟨hc, hne⟩ := h c rfl
    rw [spanName.eq_4 _ _ (fun h ↦ absurd h hne) (fun _ _ h ↦ absurd h hne), if_neg (by simp [hc])]

theorem spanName_cons (hc : isNameChar c) :
    spanName (c :: rest) = (c :: (spanName rest).1, (spanName rest).2) := by
  have hne : c ≠ '\\' := by
    rintro rfl
    exact absurd hc (by decide)
  rw [spanName.eq_4 _ _ (fun h ↦ absurd h hne) (fun _ _ h ↦ absurd h hne), if_pos hc]

theorem dropName_append (hcs : ∀ c ∈ cs, isNameChar c) (hrest : EndsName rest) :
    dropName (cs ++ rest) = rest := by
  induction cs with
  | nil => rw [List.nil_append, dropName, spanName_of_endsName hrest]
  | cons c cs ih =>
    rw [List.cons_append, dropName, spanName_cons (hcs c List.mem_cons_self)]
    exact ih fun d hd ↦ hcs d (List.mem_cons_of_mem c hd)

/-- The kinds of brackets. -/
inductive Bracket
  | round
  | square

namespace Bracket

def opening : Bracket → Char
  | round => '('
  | square => '['

def closing : Bracket → Char
  | round => ')'
  | square => ']'

theorem opening_mem (b : Bracket) : b.opening = '[' ∨ b.opening = '(' := by
  cases b <;> decide

theorem closing_mem (b : Bracket) : b.closing = ']' ∨ b.closing = ')' := by
  cases b <;> decide

end Bracket

/-- A text in which every quotation mark and every bracket is closed. -/
inductive Enclosed : List Char → Prop
  | nil : Enclosed []
  | plain {c : Char} {cs : List Char} (plain : Plain c) (others : Enclosed cs) : Enclosed (c :: cs)
  | quoted {q : Char} {inner cs : List Char} (quote : IsQuote q) (inside : q ∉ inner)
      (others : Enclosed cs) : Enclosed (q :: (inner ++ q :: cs))
  | group {inner cs : List Char} (b : Bracket) (inside : Enclosed inner) (others : Enclosed cs) :
      Enclosed (b.opening :: (inner ++ b.closing :: cs))

theorem Enclosed.append (h : Enclosed cs) (hd : Enclosed ds) : Enclosed (cs ++ ds) := by
  induction h with
  | nil => exact hd
  | plain plain _ ih => exact .plain plain ih
  | quoted quote inside _ ih => simpa using Enclosed.quoted quote inside ih
  | group b inside _ _ ih => simpa using Enclosed.group b inside ih

theorem enclosed_of_plain (h : ∀ c ∈ cs, Plain c) : Enclosed cs := by
  induction cs with
  | nil => exact .nil
  | cons c cs ih =>
    exact .plain (h c List.mem_cons_self) (ih fun d hd ↦ h d (List.mem_cons_of_mem c hd))

theorem dropGroup_quoted (opening closing : Char) (depth : Nat) (hin : q ∉ inner) :
    dropGroup opening closing depth (some q) (inner ++ q :: rest) =
      dropGroup opening closing depth none rest := by
  induction inner with
  | nil => simp [dropGroup]
  | cons c inner ih =>
    obtain ⟨hc, hin⟩ := List.ne_and_not_mem_of_not_mem_cons hin
    rw [List.cons_append, dropGroup, if_neg (Ne.symm hc)]
    exact ih hin

/-- Behind an opening bracket `within + 1` brackets count as open, until the closing one: one more
than before where the bracket is of the group's own kind. -/
private theorem dropGroup_brackets (a b : Bracket) (depth : Nat) : ∃ within,
    (∀ rest, dropGroup b.opening b.closing (depth + 1) none (a.opening :: rest) =
      dropGroup b.opening b.closing (within + 1) none rest) ∧
    ∀ rest, dropGroup b.opening b.closing (within + 1) none (a.closing :: rest) =
      dropGroup b.opening b.closing (depth + 1) none rest := by
  cases a <;> cases b
  · exact ⟨depth + 1, fun _ ↦ rfl, fun _ ↦ rfl⟩
  · exact ⟨depth, fun _ ↦ rfl, fun _ ↦ rfl⟩
  · exact ⟨depth, fun _ ↦ rfl, fun _ ↦ rfl⟩
  · exact ⟨depth + 1, fun _ ↦ rfl, fun _ ↦ rfl⟩

/-- Groups of either kind leave the number of open brackets as it is. -/
theorem dropGroup_enclosed (b : Bracket) (depth : Nat) (h : Enclosed cs) :
    dropGroup b.opening b.closing (depth + 1) none (cs ++ rest) =
      dropGroup b.opening b.closing (depth + 1) none rest := by
  induction h generalizing depth rest with
  | nil => rfl
  | @plain c cs plain _ ih =>
    obtain ⟨hquote, hopen, hclose⟩ := plain
    have hopening : c ≠ b.opening := by
      rintro rfl
      exact hopen b.opening_mem
    have hclosing : c ≠ b.closing := by
      rintro rfl
      exact hclose b.closing_mem
    rw [List.cons_append, dropGroup, if_neg hquote, if_neg hopening, if_neg hclosing, ih]
  | @quoted q inner cs quote inside _ ih =>
    have hquote : q = '"' ∨ q = '\'' := quote
    rw [List.cons_append, dropGroup, if_pos hquote, List.append_assoc, List.cons_append,
      dropGroup_quoted _ _ _ inside, ih]
  | group a _ _ ihin ih =>
    obtain ⟨within, hopening, hclosing⟩ := dropGroup_brackets a b depth
    rw [List.cons_append, List.append_assoc, List.cons_append, hopening, ihin, hclosing, ih]

theorem dropGroup_closed (b : Bracket) (h : Enclosed cs) :
    dropGroup b.opening b.closing 1 none (cs ++ b.closing :: rest) = rest := by
  rw [dropGroup_enclosed b 0 h]
  cases b <;> rfl

theorem dropArguments_round (h : Enclosed cs) : dropArguments ('(' :: (cs ++ ')' :: rest)) = rest :=
  dropGroup_closed .round h

theorem dropArguments_other (h : rest.head? ≠ some '(') : dropArguments rest = rest := by
  unfold dropArguments
  split
  · exact absurd rfl h
  · rfl

/-! ### Cutting a text into parts -/

/-- The weight of what is cut from a text when `acc` has begun a part, the last character first. -/
def total (acc text : List Char) : Specificity := .sum ((partsFrom none 0 acc text).map part)

theorem weigh_eq_total (text : String) : weigh text = total [] text.toList := rfl

theorem sum_map_part_finished (acc : List Char) :
    Specificity.sum ((finished acc).map part) = part acc.reverse := by
  cases acc with
  | nil => simp [finished, part]
  | cons c acc => simp [finished]

theorem total_nil (acc : List Char) : total acc [] = part acc.reverse :=
  sum_map_part_finished acc

theorem partsFrom_plain (depth : Nat) (hc : Plain c) (hspace : Text.isSpace c → depth ≠ 0) :
    partsFrom none depth acc (c :: rest) = partsFrom none depth (c :: acc) rest := by
  obtain ⟨hquote, hopen, hclose⟩ := hc
  rw [partsFrom, if_neg hquote, if_neg hopen, if_neg hclose, if_neg fun h ↦ hspace h.1 h.2]

private theorem partsFrom_run (depth : Nat)
    (hcs : ∀ c ∈ cs, Plain c ∧ (Text.isSpace c → depth ≠ 0)) :
    partsFrom none depth acc (cs ++ rest) = partsFrom none depth (cs.reverse ++ acc) rest := by
  induction cs generalizing acc with
  | nil => rfl
  | cons c cs ih =>
    obtain ⟨hc, hspace⟩ := hcs c List.mem_cons_self
    rw [List.cons_append, partsFrom_plain depth hc hspace,
      ih fun d hd ↦ hcs d (List.mem_cons_of_mem c hd)]
    simp

theorem partsFrom_quoted (depth : Nat) (hin : q ∉ inner) :
    partsFrom (some q) depth acc (inner ++ q :: rest) =
      partsFrom none depth (q :: (inner.reverse ++ acc)) rest := by
  induction inner generalizing acc with
  | nil => simp [partsFrom]
  | cons c inner ih =>
    obtain ⟨hc, hin⟩ := List.ne_and_not_mem_of_not_mem_cons hin
    rw [List.cons_append, partsFrom, if_neg (Ne.symm hc), ih hin]
    simp

private theorem partsFrom_opening (b : Bracket) (depth : Nat) :
    partsFrom none depth acc (b.opening :: rest) =
      partsFrom none (depth + 1) (b.opening :: acc) rest := by
  cases b <;> rfl

private theorem partsFrom_closing (b : Bracket) (depth : Nat) :
    partsFrom none (depth + 1) acc (b.closing :: rest) =
      partsFrom none depth (b.closing :: acc) rest := by
  cases b <;> rfl

private theorem partsFrom_enclosed (depth : Nat) (h : Enclosed cs) :
    partsFrom none (depth + 1) acc (cs ++ rest) =
      partsFrom none (depth + 1) (cs.reverse ++ acc) rest := by
  induction h generalizing depth acc rest with
  | nil => rfl
  | plain plain _ ih =>
    rw [List.cons_append, partsFrom_plain _ plain (fun _ ↦ Nat.succ_ne_zero depth), ih]
    simp
  | @quoted q inner cs quote inside _ ih =>
    have hquote : q = '"' ∨ q = '\'' := quote
    rw [List.cons_append, partsFrom, if_pos hquote, List.append_assoc, List.cons_append,
      partsFrom_quoted _ inside, ih]
    simp
  | group b inside _ ihin ih =>
    rw [List.cons_append, partsFrom_opening, List.append_assoc, List.cons_append, ihin,
      partsFrom_closing, ih]
    simp

/-- No part ends inside a group. -/
theorem partsFrom_group (b : Bracket) (depth : Nat) (h : Enclosed cs) :
    partsFrom none depth acc (b.opening :: (cs ++ b.closing :: rest)) =
      partsFrom none depth (b.closing :: (cs.reverse ++ b.opening :: acc)) rest := by
  rw [partsFrom_opening, partsFrom_enclosed depth h, partsFrom_closing]

/-! ### Conditions -/

variable {ends : List Char → Prop}

private theorem continuesName_of_nameText (h : NameText ends cs after) :
    ∀ c ∈ cs, continuesName c := by
  obtain ⟨first, more, -⟩ := h
  exact List.forall_mem_cons.mpr ⟨continuesName_of_isAlpha first, more⟩

private theorem plain_of_comparison (comparison : Comparison) :
    ∀ c ∈ comparison.text.toList, Plain c := by
  cases comparison <;> simp [Comparison.text, Plain]

/-- What stands in the brackets of an attribute condition is enclosed by them. -/
private theorem enclosed_of_testText {test : AttributeTest} (h : TestText ends cs test after) :
    Enclosed cs := by
  have hname {ns x : List Char} (hn : NameText ends ns x) : Enclosed ns :=
    enclosed_of_plain fun c hc ↦ plain_of_continuesName (continuesName_of_nameText hn c hc)
  have hspaces {ws : List Char} (hws : Spaces ws) : Enclosed ws :=
    enclosed_of_plain fun c hc ↦ plain_of_isSpace (hws c hc)
  cases h with
  | present name => exact hname name
  | @compared ns ws ws' vs _ comparison value name before between expected =>
    have hvalue : Enclosed vs := by
      cases expected with
      | literal opens inside => exact .quoted opens inside .nil
      | bare name => exact hname name
    have hsign : Enclosed comparison.text.toList := enclosed_of_plain (plain_of_comparison _)
    have hbefore := ((hspaces before).append hsign).append (hspaces between)
    exact (hname name).append (hbefore.append hvalue)

private theorem partsFrom_name (h : NameText ends cs after) :
    partsFrom none 0 acc (cs ++ rest) = partsFrom none 0 (cs.reverse ++ acc) rest := by
  apply partsFrom_run
  intro c hc
  have hcontinues := continuesName_of_nameText h c hc
  refine ⟨plain_of_continuesName hcontinues, ?_⟩
  intro hspace
  rw [continuesName_of_isSpace hspace] at hcontinues
  exact absurd hcontinues Bool.false_ne_true

/-- No part ends inside a condition. -/
private theorem partsFrom_simpleText (h : SimpleText ends cs s after) :
    partsFrom none 0 acc (cs ++ rest) = partsFrom none 0 (cs.reverse ++ acc) rest := by
  have hmark (c : Char) (hc : Plain c) (hspace : ¬ Text.isSpace c) {ns : List Char}
      (name : NameText ends ns after) :
      partsFrom none 0 acc (c :: ns ++ rest) =
        partsFrom none 0 ((c :: ns).reverse ++ acc) rest := by
    rw [List.cons_append, partsFrom_plain 0 hc (fun h ↦ absurd h hspace), partsFrom_name name]
    simp
  cases h with
  | idName name => exact hmark '#' (by simp [Plain]) (by decide) name
  | className name => exact hmark '.' (by simp [Plain]) (by decide) name
  | typeName name => exact partsFrom_name name
  | @attr cs _ test inside =>
    have hgroup : partsFrom none 0 acc ('[' :: (cs ++ ']' :: rest)) =
        partsFrom none 0 (']' :: (cs.reverse ++ '[' :: acc)) rest :=
      partsFrom_group .square 0 (enclosed_of_testText inside)
    simpa using hgroup

private theorem partsFrom_compoundText (h : CompoundText ends cs l after) :
    partsFrom none 0 acc (cs ++ rest) = partsFrom none 0 (cs.reverse ++ acc) rest := by
  induction h generalizing acc with
  | one only => exact partsFrom_simpleText only
  | more first _ ih =>
    rw [List.append_assoc, partsFrom_simpleText first, ih]
    simp

theorem part_square (h : Enclosed cs) :
    part ('[' :: (cs ++ ']' :: rest)) = .add ⟨0, 1, 0⟩ (part rest) := by
  have hgroup : dropGroup '[' ']' 1 none (cs ++ ']' :: rest) = rest := dropGroup_closed .square h
  rw [part, hgroup]

theorem part_other (hhash : c ≠ '#') (hperiod : c ≠ '.') (hbracket : c ≠ '[')
    (hcolon : c ≠ ':') : part (c :: rest) =
      if Text.isAlphabetic c then .add ⟨0, 0, 1⟩ (part (dropName rest)) else part rest :=
  part.eq_7 _ _ hhash hperiod hbracket (fun _ h _ ↦ hcolon h) hcolon

private theorem part_letter (hc : c.isAlpha) :
    part (c :: rest) = .add ⟨0, 0, 1⟩ (part (dropName rest)) := by
  have hne (d : Char) (hd : d.isAlpha = false) : c ≠ d := by
    rintro rfl
    exact absurd hc (by simp [hd])
  rw [part_other (hne '#' rfl) (hne '.' rfl) (hne '[' rfl) (hne ':' rfl),
    if_pos (isAlphabetic_of_isAlpha hc)]

/-- A condition at the front of a part is weighed as one, if its name ends there. -/
private theorem part_simpleText (h : SimpleText ends cs s after)
    (hrest : EndsName rest ∨ ∃ test, s = .attr test) :
    part (cs ++ rest) = s.specificity.add (part rest) := by
  have hname {ns : List Char} (hns : ∀ c ∈ ns, continuesName c) (hends : EndsName rest) :
      dropName (ns ++ rest) = rest :=
    dropName_append (fun c hc ↦ isNameChar_of_continuesName (hns c hc)) hends
  cases h with
  | idName name =>
    rw [List.cons_append, part,
      hname (continuesName_of_nameText name) (hrest.resolve_right (by simp))]
    rfl
  | className name =>
    rw [List.cons_append, part,
      hname (continuesName_of_nameText name) (hrest.resolve_right (by simp))]
    rfl
  | typeName name =>
    obtain ⟨first, more, -⟩ := name
    rw [List.cons_append, part_letter first, hname more (hrest.resolve_right (by simp))]
    rfl
  | attr inside =>
    rw [List.cons_append, List.append_assoc, List.singleton_append,
      part_square (enclosed_of_testText inside)]
    rfl

-- What begins a condition ends a name, unless it is a letter that continues it.
private theorem endsName_of_startsCondition (h : StartsCondition c)
    (hlongest : longest (c :: cs)) : EndsName (c :: ds) := by
  rintro d ⟨⟩
  rcases h with rfl | rfl | rfl | h
  · decide
  · decide
  · decide
  · rw [longest_cons, continuesName_of_isAlpha h] at hlongest
    exact Bool.noConfusion hlongest

private theorem part_compoundText (h : CompoundText longest cs l after) (hrest : EndsName rest) :
    part (cs ++ rest) = (Compound.mk l).specificity.add (part rest) := by
  induction h with
  | one only =>
    rw [part_simpleText only (.inl hrest), Compound.specificity_cons, Specificity.add_assoc]
    simp [Compound.specificity]
  | @more cs ds after s l first others ih =>
    have hends : EndsName (ds ++ rest) ∨ ∃ test, s = .attr test := by
      obtain ⟨x, xs, rfl, hx⟩ := others.exists_cons
      exact first.ends_or_attr.imp_left fun hstop ↦ endsName_of_startsCondition hx hstop
    rw [List.append_assoc, part_simpleText first hends, ih, Compound.specificity_cons,
      Specificity.add_assoc]

/-! ### Selectors -/

/-- A part that has begun with `acc` weighs `w` more than what goes on with it. -/
def Carries (goesOn : List Char → Prop) (acc : List Char) (w : Specificity) : Prop :=
  ∀ x, goesOn x → part (acc.reverse ++ x) = w.add (part x)

variable {w v : Specificity} {goesOn : List Char → Prop}

theorem carries_nil : Carries goesOn [] .zero := by
  intro x _
  rw [List.reverse_nil, List.nil_append, Specificity.zero_add]

private theorem Carries.compound (h : Carries (fun _ ↦ True) acc w)
    (hc : CompoundText longest cs l after) :
    Carries EndsName (cs.reverse ++ acc) (w.add (Compound.mk l).specificity) := by
  intro x hx
  rw [List.reverse_append, List.reverse_reverse, List.append_assoc, h _ trivial,
    part_compoundText hc hx, Specificity.add_assoc]

theorem part_sign (hop : IsSign c) : part (c :: rest) = part rest := by
  have hne (d : Char) (hd : ¬ IsSign d) : c ≠ d := by
    rintro rfl
    exact hd hop
  have halpha : Text.isAlphabetic c = false := by
    rcases hop with rfl | rfl | rfl <;> decide
  rw [part_other (hne '#' (by simp [IsSign])) (hne '.' (by simp [IsSign]))
    (hne '[' (by simp [IsSign])) (hne ':' (by simp [IsSign])), halpha]
  rfl

private theorem Carries.sign (h : Carries EndsName acc w) (hop : IsSign c) :
    Carries (fun _ ↦ True) (c :: acc) w := by
  intro x _
  have hends : EndsName (c :: x) := by
    rintro d ⟨⟩
    rcases hop with rfl | rfl | rfl <;> decide
  rw [List.reverse_cons, List.append_assoc, List.singleton_append, h _ hends, part_sign hop]

theorem Carries.part_reverse (h : Carries goesOn acc w) (hnil : goesOn []) :
    part acc.reverse = w := by
  have hp := h [] hnil
  rwa [List.append_nil, part, Specificity.add_zero] at hp

private theorem partsFrom_spaces (hws : Spaces ws) :
    partsFrom none 0 [] (ws ++ rest) = partsFrom none 0 [] rest := by
  induction ws with
  | nil => rfl
  | cons c ws ih =>
    obtain ⟨hquote, hopen, hclose⟩ := plain_of_isSpace (hws c List.mem_cons_self)
    rw [List.cons_append, partsFrom, if_neg hquote, if_neg hopen, if_neg hclose,
      if_pos ⟨hws c List.mem_cons_self, rfl⟩]
    exact ih fun d hd ↦ hws d (List.mem_cons_of_mem c hd)

/-- Whitespace ends the part that has begun, and the next one begins behind it. -/
private theorem total_space (hc : Text.isSpace c) (hws : Spaces ws) :
    total acc (c :: (ws ++ rest)) = (part acc.reverse).add (total [] rest) := by
  obtain ⟨hquote, hopen, hclose⟩ := plain_of_isSpace hc
  rw [total, partsFrom, if_neg hquote, if_neg hopen, if_neg hclose, if_pos ⟨hc, rfl⟩,
    partsFrom_spaces hws, List.map_append, Specificity.sum_append, sum_map_part_finished]
  rfl

-- Behind whitespace, of which there may be none, the text goes on in the same part or in a new one.
private theorem Carries.total_spaces (h : Carries goesOn acc w) (hnil : goesOn [])
    (hws : Spaces ws)
    (hrest : ∀ acc w, Carries goesOn acc w → total acc rest = w.add v) :
    total acc (ws ++ rest) = w.add v := by
  cases ws with
  | nil => exact hrest acc w h
  | cons c ws =>
    rw [List.cons_append, total_space (hws c List.mem_cons_self)
      (fun d hd ↦ hws d (List.mem_cons_of_mem c hd)), h.part_reverse hnil,
      hrest [] .zero carries_nil, Specificity.zero_add]

private theorem total_sign (hop : IsSign c) : total acc (c :: rest) = total (c :: acc) rest := by
  have hplain : Plain c := by
    rcases hop with rfl | rfl | rfl <;> simp [Plain]
  rw [total, partsFrom_plain 0 hplain (fun hspace ↦ absurd hspace hop.not_isSpace), total]

private theorem total_compound (h : CompoundText ends cs l after) :
    total acc (cs ++ rest) = total (cs.reverse ++ acc) rest := by
  rw [total, partsFrom_compoundText h, total]

/-- What is cut from a selector's text weighs as much as the selector, beside what the part that it
begins in holds already. -/
private theorem total_complexText {p : Position} {s : Complex}
    (h : ComplexText longest p cs s after) (ha : Spaces after)
    (hacc : Carries (fun _ ↦ True) acc w) :
    total acc (cs ++ after) = w.add s.specificity := by
  have hnil : EndsName [] := by simp [EndsName]
  induction h generalizing acc w with
  | @sign p cs ws ws' ds after op left right first before joins behind others ih =>
    simp only [List.append_assoc, List.cons_append]
    rw [Complex.specificity_joined, total_compound first, ← Specificity.add_assoc]
    apply (hacc.compound first).total_spaces hnil before
    intro acc' w' hleft
    rw [total_sign joins]
    apply (hleft.sign joins).total_spaces trivial behind
    intro acc'' w'' hright
    exact ih ha hright
  | @space p cs ws ds after c left right first joins behind others ih =>
    simp only [List.append_assoc, List.cons_append]
    rw [Complex.specificity_joined, total_compound first, total_space joins behind,
      (hacc.compound first).part_reverse hnil, ih ha carries_nil, Specificity.zero_add,
      Specificity.add_assoc]
  | @compound p cs after l only =>
    rw [Complex.specificity_compound, total_compound only, ← List.append_nil after,
      ← Specificity.add_zero (w.add _)]
    apply (hacc.compound only).total_spaces hnil ha
    intro acc' w' hleft
    rw [total_nil, hleft.part_reverse hnil, Specificity.add_zero]

end Weigh

/-- A text that parses weighs as much as the selector it stands for: what is read off the text
agrees with what is counted in the selector. -/
theorem weigh_eq_specificity {text : String} {s : Complex} (h : parse text = .ok s) :
    weigh text = s.specificity := by
  obtain ⟨cs, ws, htext, hs, hws⟩ := parse_eq_ok_iff.mp h
  have htotal := Weigh.total_complexText hs hws Weigh.carries_nil
  rw [Weigh.weigh_eq_total, htext, htotal, Specificity.zero_add]

/-- Brackets, quotes and signs in a literal and a wide space behind the selector weigh nothing. -/
theorem weigh_literal_with_signs :
    parse "a[b= '] #c (\"']>#d.e\u3000" = .ok (.joined ⟨.leftAngle, '>', ⟨1, 16, 15⟩⟩
      ⟨[.typeName "a", .attr ⟨"b", some .equals, some (.literal "'] #c (\"'")⟩]⟩
      (.compound ⟨[.idName "d", .className "e"]⟩)) ∧
    weigh "a[b= '] #c (\"']>#d.e\u3000" = ⟨1, 2, 1⟩ := by
  have h : parse "a[b= '] #c (\"']>#d.e\u3000" = .ok (.joined ⟨.leftAngle, '>', ⟨1, 16, 15⟩⟩
      ⟨[.typeName "a", .attr ⟨"b", some .equals, some (.literal "'] #c (\"'")⟩]⟩
      (.compound ⟨[.idName "d", .className "e"]⟩)) := by decide +kernel
  exact ⟨h, weigh_eq_specificity h⟩

end StyleCheck.Selector
