import StyleCheck.Proofs.Selector.Weighing

/-!
# Conditions counted in a text

Selectors as style sheets write them: with `*`, pseudo-classes and pseudo-elements, and with any
brackets that are closed. The pieces that a name consists of are a parameter, and so is the way in
which they are spelled. Main statement: the weight read off the text of such a selector counts its
ids, its classes and its types.
-/

namespace StyleCheck.Selector

open Grammar Weigh

namespace Extended

/-! ### Syntax -/

/-- A letter, a digit, a hyphen, an underscore or a character beyond ASCII that is no white
space. -/
structure NameChar where
  char : Char
  named : char.isAlphanum ∨ char = '-' ∨ char = '_' ∨ 128 ≤ char.toNat
  notSpace : ¬ Text.isSpace char

/-- A character spells itself. -/
def NameChar.spelled (c : NameChar) : List Char := [c.char]

/-- A name: a character and pieces behind it. -/
structure Name (P : Type) where
  first : NameChar
  rest : List P

/-- What stands in brackets: characters, names, strings and groups, one after the other. -/
inductive Nested (P : Type)
  | nil
  | char (c : Char) (plain : Plain c) (rest : Nested P)
  | name (name : Name P) (rest : Nested P)
  | string (quote : Char) (inside : List Char) (isQuote : IsQuote quote) (closed : quote ∉ inside)
      (rest : Nested P)
  | group (bracket : Bracket) (inside rest : Nested P)

/-- A condition on an element. -/
inductive Condition (P : Type)
  | idName (name : Name P)
  | className (name : Name P)
  | attr (inside : Nested P)
  | pseudoClass (name : Name P) (arguments : Option (Nested P))
  | pseudoElement (name : Name P) (arguments : Option (Nested P))

/-- What a compound may begin with: `*`, or the name of a type. -/
inductive Head (P : Type)
  | universal
  | typeName (name : Name P) (alphabetic : Text.isAlphabetic name.first.char)

/-- The conditions on one element. -/
structure Compound (P : Type) where
  head : Option (Head P)
  conditions : List (Condition P)

/-- What joins two compounds: white space, or a sign that may have white space around it. -/
inductive Join
  | space (first : Char) (more : List Char) (spaces : Spaces (first :: more))
  | sign (before : List Char) (c : Char) (behind : List Char) (spaces : Spaces before)
      (isSign : IsSign c) (spaces' : Spaces behind)

/-- Compounds, joined one to the other. -/
structure Chain (P : Type) where
  first : Compound P
  others : List (Join × Compound P)

variable {P : Type}

/-! ### Texts -/

section

variable (spell : P → List Char)

def Name.text (n : Name P) : List Char := n.first.char :: n.rest.flatMap spell

def Nested.text : Nested P → List Char
  | nil => []
  | char c _ rest => c :: rest.text
  | name n rest => n.text spell ++ rest.text
  | string quote inside _ _ rest => quote :: (inside ++ quote :: rest.text)
  | group bracket inside rest => bracket.opening :: (inside.text ++ bracket.closing :: rest.text)

/-- Something in brackets, with the brackets. -/
def Nested.enclosed (bracket : Bracket) (n : Nested P) : List Char :=
  bracket.opening :: (n.text spell ++ [bracket.closing])

def argumentsText (arguments : Option (Nested P)) : List Char :=
  arguments.elim [] (Nested.enclosed spell .round)

def Condition.text : Condition P → List Char
  | idName name => '#' :: name.text spell
  | className name => '.' :: name.text spell
  | attr inside => inside.enclosed spell .square
  | pseudoClass name arguments => ':' :: (name.text spell ++ argumentsText spell arguments)
  | pseudoElement name arguments =>
    ':' :: ':' :: (name.text spell ++ argumentsText spell arguments)

def Head.text : Head P → List Char
  | universal => ['*']
  | typeName name _ => name.text spell

def Compound.text (c : Compound P) : List Char :=
  c.head.elim [] (Head.text spell) ++ c.conditions.flatMap (Condition.text spell)

/-- The white space of a joint. -/
def Join.spaces : Join → List Char
  | space first more _ => first :: more
  | sign before _ behind .. => before ++ behind

def Join.text : Join → List Char
  | space first more _ => first :: more
  | sign before c behind .. => before ++ c :: behind

def Chain.text (s : Chain P) : List Char :=
  s.first.text spell ++ s.others.flatMap fun o ↦ o.1.text ++ o.2.text spell

end

/-! ### Counts -/

/-- The names of the pseudo-elements that may stand behind a single colon, in any letter case. -/
def isOldElement (name : List Char) : Bool :=
  Text.lower (String.ofList name) ∈ ["before", "after", "first-line", "first-letter"]

/-- The name of the pseudo-class without weight, in any letter case. -/
def isWhere (name : List Char) : Bool := Text.lower (String.ofList name) = "where"

namespace Condition

def isId : Condition P → Bool
  | idName _ => true
  | _ => false

/-- Classes, attributes, and the pseudo-classes that are neither old pseudo-elements nor
`:where`. -/
def isClass (spell : P → List Char) : Condition P → Bool
  | className _ => true
  | attr _ => true
  | pseudoClass name _ => !isOldElement (name.text spell) && !isWhere (name.text spell)
  | _ => false

/-- Pseudo-elements, old ones with a single colon among them. -/
def isElement (spell : P → List Char) : Condition P → Bool
  | pseudoElement _ _ => true
  | pseudoClass name _ => isOldElement (name.text spell)
  | _ => false

end Condition

/-- Whether a compound begins with the name of a type. -/
def Compound.isTyped (c : Compound P) : Bool :=
  match c.head with
  | some (.typeName _ _) => true
  | _ => false

def Chain.compounds (s : Chain P) : List (Compound P) := s.first :: s.others.map Prod.snd

def Chain.conditions (s : Chain P) : List (Condition P) := s.compounds.flatMap Compound.conditions

/-- How many ids, classes and types a selector names. -/
def Chain.counts (spell : P → List Char) (s : Chain P) : Specificity :=
  ⟨s.conditions.countP Condition.isId, s.conditions.countP (Condition.isClass spell),
    s.compounds.countP Compound.isTyped + s.conditions.countP (Condition.isElement spell)⟩

/-! ### Pieces of names -/

def Nested.names : Nested P → List (Name P)
  | nil => []
  | char _ _ rest => rest.names
  | name n rest => n :: rest.names
  | string _ _ _ _ rest => rest.names
  | group _ inside rest => inside.names ++ rest.names

namespace Condition

/-- The pieces of the condition's own name. -/
def pieces : Condition P → List P
  | idName name => name.rest
  | className name => name.rest
  | attr _ => []
  | pseudoClass name _ => name.rest
  | pseudoElement name _ => name.rest

/-- The names in the condition's brackets. -/
def enclosedNames : Condition P → List (Name P)
  | attr inside => inside.names
  | pseudoClass _ arguments => arguments.elim [] Nested.names
  | pseudoElement _ arguments => arguments.elim [] Nested.names
  | _ => []

end Condition

namespace Compound

def headPieces (c : Compound P) : List P :=
  match c.head with
  | some (.typeName name _) => name.rest
  | _ => []

def pieces (c : Compound P) : List P := c.headPieces ++ c.conditions.flatMap Condition.pieces

def enclosedNames (c : Compound P) : List (Name P) :=
  c.conditions.flatMap Condition.enclosedNames

end Compound

/-- The pieces of the names outside brackets. -/
def Chain.pieces (s : Chain P) : List P := s.compounds.flatMap Compound.pieces

/-- The names in brackets. -/
def Chain.enclosedNames (s : Chain P) : List (Name P) :=
  s.compounds.flatMap Compound.enclosedNames

/-! ### Names -/

/-- A piece that a name takes along, whatever stands behind it. -/
def Reads (spell : P → List Char) (p : P) : Prop :=
  ∀ x, spanName (spell p ++ x) = (spell p ++ (spanName x).1, (spanName x).2)

/-- What may follow a condition: no more of its name, and no arguments. -/
def Follows (x : List Char) : Prop := EndsName x ∧ x.head? ≠ some '('

variable {spell : P → List Char} {x : List Char}

theorem NameChar.isNameChar (c : NameChar) : isNameChar c.char := by
  simpa [Weigh.isNameChar, or_assoc] using c.named

theorem NameChar.plain (c : NameChar) : Plain c.char := by
  have h := c.isNameChar
  refine ⟨?_, ?_, ?_⟩ <;> rintro (hc | hc) <;> rw [hc] at h <;> exact absurd h (by decide)

private theorem spanName_pieces {pieces : List P} (hpieces : ∀ p ∈ pieces, Reads spell p)
    (hx : EndsName x) : spanName (pieces.flatMap spell ++ x) = (pieces.flatMap spell, x) := by
  induction pieces with
  | nil => exact spanName_of_endsName hx
  | cons p pieces ih =>
    obtain ⟨hp, hpieces⟩ := List.forall_mem_cons.mp hpieces
    rw [List.flatMap_cons, List.append_assoc, hp, ih hpieces]

theorem Name.spanName_text {n : Name P} (hrest : ∀ p ∈ n.rest, Reads spell p) (hx : EndsName x) :
    spanName (n.text spell ++ x) = (n.text spell, x) := by
  rw [Name.text, List.cons_append, spanName_cons n.first.isNameChar, spanName_pieces hrest hx]

theorem Name.dropName_text {n : Name P} (hrest : ∀ p ∈ n.rest, Reads spell p) (hx : EndsName x) :
    dropName (n.text spell ++ x) = x := by
  rw [dropName, spanName_text hrest hx]

/-! ### Brackets -/

theorem Nested.enclosed_text {n : Nested P} (hn : ∀ m ∈ n.names, Enclosed (m.text spell)) :
    Enclosed (n.text spell) := by
  induction n with
  | nil => exact .nil
  | char c plain rest ih => exact .plain plain (ih hn)
  | name m rest ih =>
    obtain ⟨hm, hrest⟩ := List.forall_mem_cons.mp hn
    exact hm.append (ih hrest)
  | string quote inside isQuote closed rest ih => exact .quoted isQuote closed (ih hn)
  | group b inside rest ihin ih =>
    obtain ⟨hinside, hrest⟩ := List.forall_mem_append.mp hn
    exact .group b (ihin hinside) (ih hrest)

/-! ### Weights -/

/-- The weight of a condition, counted. -/
def Condition.weight (spell : P → List Char) (c : Condition P) : Specificity :=
  ⟨c.isId.toNat, (c.isClass spell).toNat, (c.isElement spell).toNat⟩

theorem singleColon_eq (name : List Char) : singleColon name =
    ⟨0, (!isOldElement name && !isWhere name).toNat, (isOldElement name).toNat⟩ := by
  simp only [singleColon, oldPseudoElements, List.contains_iff_mem, isOldElement, isWhere]
  by_cases hold :
      Text.lower (String.ofList name) ∈ ["before", "after", "first-line", "first-letter"]
  · simp [hold]
  · by_cases hwhere : Text.lower (String.ofList name) = "where" <;> simp [hold, hwhere]

private theorem dropArguments_text {arguments : Option (Nested P)}
    (harguments : ∀ m ∈ arguments.elim [] Nested.names, Enclosed (m.text spell))
    (hx : x.head? ≠ some '(') : dropArguments (argumentsText spell arguments ++ x) = x := by
  cases arguments with
  | none => exact dropArguments_other hx
  | some inside =>
    rw [argumentsText, Option.elim_some, Nested.enclosed, List.cons_append, List.append_assoc]
    exact dropArguments_round (Nested.enclosed_text harguments)

private theorem endsName_arguments (arguments : Option (Nested P)) (hx : EndsName x) :
    EndsName (argumentsText spell arguments ++ x) := by
  cases arguments with
  | none => exact hx
  | some inside =>
    rintro c ⟨⟩
    decide

private theorem part_colon (name : Name P) : part (':' :: (name.text spell ++ x)) =
    .add (singleColon (spanName (name.text spell ++ x)).1)
      (part (dropArguments (dropName (name.text spell ++ x)))) := by
  apply part.eq_6
  intro rest h
  have hfirst := name.first.isNameChar
  rw [(List.cons.inj h).1] at hfirst
  exact absurd hfirst (by decide)

theorem Condition.part_text {c : Condition P} (hpieces : ∀ p ∈ c.pieces, Reads spell p)
    (henclosed : ∀ m ∈ c.enclosedNames, Enclosed (m.text spell)) (hx : Follows x) :
    part (c.text spell ++ x) = (c.weight spell).add (part x) := by
  obtain ⟨hends, hround⟩ := hx
  cases c with
  | idName name =>
    rw [Condition.text, List.cons_append, part, Name.dropName_text hpieces hends]
    rfl
  | className name =>
    rw [Condition.text, List.cons_append, part, Name.dropName_text hpieces hends]
    rfl
  | attr inside =>
    rw [Condition.text, Nested.enclosed, List.cons_append, List.append_assoc]
    exact part_square (Nested.enclosed_text henclosed)
  | pseudoClass name arguments =>
    have hname : EndsName (argumentsText spell arguments ++ x) := endsName_arguments arguments hends
    rw [Condition.text, List.cons_append, List.append_assoc, part_colon name,
      Name.spanName_text hpieces hname, Name.dropName_text hpieces hname,
      dropArguments_text henclosed hround, singleColon_eq]
    rfl
  | pseudoElement name arguments =>
    have hname : EndsName (argumentsText spell arguments ++ x) := endsName_arguments arguments hends
    rw [Condition.text, List.cons_append, List.cons_append, List.append_assoc, part,
      Name.dropName_text hpieces hname, dropArguments_text henclosed hround]
    rfl

variable {ascii : Prop}

/-- Characters outside brackets that neither begin a string nor end a part. A bracket among them may
open as long as all white space is ASCII, which weighs nothing within a part either. -/
def Loose (ascii : Prop) (c : Char) : Prop :=
  ¬ (c = '"' ∨ c = '\'') ∧ ¬ Text.isSpace c ∧ (c = '[' ∨ c = '(' → ascii)

theorem NameChar.loose (c : NameChar) : Loose ascii c.char := by
  obtain ⟨hquote, hopen, -⟩ := c.plain
  exact ⟨hquote, c.notSpace, fun h ↦ absurd h hopen⟩

/-- A compound is spelled so that both passes over a text go past it as one. -/
structure Compound.Spelled (spell : P → List Char) (ascii : Prop) (c : Compound P) : Prop where
  reads : ∀ p ∈ c.pieces, Reads spell p
  loose : ∀ p ∈ c.pieces, ∀ d ∈ spell p, Loose ascii d
  enclosed : ∀ m ∈ c.enclosedNames, Enclosed (m.text spell)

private theorem follows_condition (c : Condition P) : Follows (c.text spell ++ x) := by
  cases c <;> exact ⟨by rintro d ⟨⟩; decide, by rintro ⟨⟩⟩

private theorem part_conditions {l : List (Condition P)}
    (hpieces : ∀ p ∈ l.flatMap Condition.pieces, Reads spell p)
    (henclosed : ∀ m ∈ l.flatMap Condition.enclosedNames, Enclosed (m.text spell))
    (hx : Follows x) : Follows (l.flatMap (Condition.text spell) ++ x) ∧
      part (l.flatMap (Condition.text spell) ++ x) =
        (Specificity.sum (l.map (Condition.weight spell))).add (part x) := by
  induction l with
  | nil => exact ⟨hx, (Specificity.zero_add _).symm⟩
  | cons c l ih =>
    rw [List.flatMap_cons, List.forall_mem_append] at hpieces henclosed
    obtain ⟨hfollows, hpart⟩ := ih hpieces.2 henclosed.2
    rw [List.flatMap_cons, List.append_assoc, List.map_cons, Specificity.sum_cons,
      Specificity.add_assoc, ← hpart]
    exact ⟨follows_condition c, Condition.part_text hpieces.1 henclosed.1 hfollows⟩

private theorem part_typeName {n : Name P} (halphabetic : Text.isAlphabetic n.first.char)
    (hrest : ∀ p ∈ n.rest, Reads spell p) (hx : EndsName x) :
    part (n.text spell ++ x) = .add ⟨0, 0, 1⟩ (part x) := by
  have hfirst := n.first.isNameChar
  have hne (d : Char) (hd : Weigh.isNameChar d = false) : n.first.char ≠ d := by
    rintro h
    rw [h, hd] at hfirst
    exact Bool.false_ne_true hfirst
  rw [Name.text, List.cons_append, part_other (hne '#' rfl) (hne '.' rfl) (hne '[' rfl)
    (hne ':' rfl), if_pos halphabetic, dropName, spanName_pieces hrest hx]

private theorem part_head {c : Compound P} (hreads : ∀ p ∈ c.headPieces, Reads spell p)
    (hx : EndsName x) : part (c.head.elim [] (Head.text spell) ++ x) =
      .add ⟨0, 0, c.isTyped.toNat⟩ (part x) := by
  obtain ⟨_ | _ | ⟨name, alphabetic⟩, conditions⟩ := c
  · exact (Specificity.zero_add _).symm
  · have hstar : part ('*' :: x) = part x := by
      rw [part_other (by decide) (by decide) (by decide) (by decide), if_neg (by decide)]
    exact hstar.trans (Specificity.zero_add _).symm
  · exact part_typeName alphabetic hreads hx

/-- The weight of a compound, counted. -/
def Compound.weight (spell : P → List Char) (c : Compound P) : Specificity :=
  .add ⟨0, 0, c.isTyped.toNat⟩ (.sum (c.conditions.map (Condition.weight spell)))

theorem Compound.part_text {c : Compound P} (hc : c.Spelled spell ascii) (hx : Follows x) :
    part (c.text spell ++ x) = (c.weight spell).add (part x) := by
  have hpieces := hc.reads
  rw [pieces, List.forall_mem_append] at hpieces
  obtain ⟨hfollows, hpart⟩ := part_conditions hpieces.2 hc.enclosed hx
  rw [text, List.append_assoc, weight, Specificity.add_assoc, ← hpart]
  exact part_head hpieces.1 hfollows.1

/-! ### Parts -/

/-- A text that no part ends in, wherever it stands: where brackets are open before it, they were
opened in names. -/
def Crosses (ascii : Prop) (cs : List Char) : Prop :=
  ∀ d, d = 0 ∨ ascii → ∃ d', (d' = 0 ∨ ascii) ∧
    ∀ acc rest, partsFrom none d acc (cs ++ rest) = partsFrom none d' (cs.reverse ++ acc) rest

variable {cs ds : List Char}

private theorem crosses_nil : Crosses ascii [] := by
  intro d hd
  exact ⟨d, hd, fun acc rest ↦ rfl⟩

private theorem Crosses.append (h : Crosses ascii cs) (h' : Crosses ascii ds) :
    Crosses ascii (cs ++ ds) := by
  intro d hd
  obtain ⟨d₁, hd₁, hcs⟩ := h d hd
  obtain ⟨d₂, hd₂, hds⟩ := h' d₁ hd₁
  refine ⟨d₂, hd₂, fun acc rest ↦ ?_⟩
  rw [List.append_assoc, hcs, hds, List.reverse_append, List.append_assoc]

private theorem crosses_loose {c : Char} (hc : Loose ascii c) : Crosses ascii [c] := by
  obtain ⟨hquote, hspace, hopen⟩ := hc
  intro d hd
  by_cases hopening : c = '[' ∨ c = '('
  · refine ⟨d + 1, .inr (hopen hopening), fun acc rest ↦ ?_⟩
    rw [List.singleton_append, partsFrom, if_neg hquote, if_pos hopening]
    rfl
  by_cases hclosing : c = ']' ∨ c = ')'
  · refine ⟨d - 1, hd.imp_left (by omega), fun acc rest ↦ ?_⟩
    rw [List.singleton_append, partsFrom, if_neg hquote, if_neg hopening, if_pos hclosing]
    rfl
  · exact ⟨d, hd, fun acc rest ↦ partsFrom_plain d ⟨hquote, hopening, hclosing⟩
      fun h ↦ absurd h hspace⟩

private theorem crosses_of_forall (h : ∀ c ∈ cs, Loose ascii c) : Crosses ascii cs := by
  induction cs with
  | nil => exact crosses_nil
  | cons c cs ih =>
    obtain ⟨hc, hcs⟩ := List.forall_mem_cons.mp h
    exact (crosses_loose hc).append (ih hcs)

private theorem crosses_enclosed (b : Bracket) {n : Nested P}
    (hn : ∀ m ∈ n.names, Enclosed (m.text spell)) : Crosses ascii (n.enclosed spell b) := by
  intro d hd
  refine ⟨d, hd, fun acc rest ↦ ?_⟩
  rw [Nested.enclosed, List.cons_append, List.append_assoc, List.singleton_append,
    partsFrom_group b d (Nested.enclosed_text hn)]
  simp

private theorem crosses_name {n : Name P} (hn : ∀ p ∈ n.rest, ∀ d ∈ spell p, Loose ascii d) :
    Crosses ascii (n.text spell) :=
  crosses_of_forall (List.forall_mem_cons.mpr ⟨n.first.loose, List.forall_mem_flatMap.mpr hn⟩)

private theorem crosses_arguments {arguments : Option (Nested P)}
    (h : ∀ m ∈ arguments.elim [] Nested.names, Enclosed (m.text spell)) :
    Crosses ascii (argumentsText spell arguments) := by
  cases arguments with
  | none => exact crosses_nil
  | some inside => exact crosses_enclosed .round h

private theorem crosses_condition {c : Condition P}
    (hpieces : ∀ p ∈ c.pieces, ∀ d ∈ spell p, Loose ascii d)
    (henclosed : ∀ m ∈ c.enclosedNames, Enclosed (m.text spell)) :
    Crosses ascii (c.text spell) := by
  have hmark (c : Char) (hc : c = '#' ∨ c = '.' ∨ c = ':') : Crosses ascii [c] := by
    apply crosses_loose
    rcases hc with rfl | rfl | rfl <;> simp [Loose] <;> decide
  cases c with
  | idName name => exact (hmark '#' (by simp)).append (crosses_name hpieces)
  | className name => exact (hmark '.' (by simp)).append (crosses_name hpieces)
  | attr inside => exact crosses_enclosed .square henclosed
  | pseudoClass name arguments =>
    exact (hmark ':' (by simp)).append ((crosses_name hpieces).append (crosses_arguments henclosed))
  | pseudoElement name arguments =>
    have hcolon := hmark ':' (by simp)
    exact hcolon.append
      (hcolon.append ((crosses_name hpieces).append (crosses_arguments henclosed)))

private theorem crosses_conditions {l : List (Condition P)}
    (hpieces : ∀ p ∈ l.flatMap Condition.pieces, ∀ d ∈ spell p, Loose ascii d)
    (henclosed : ∀ m ∈ l.flatMap Condition.enclosedNames, Enclosed (m.text spell)) :
    Crosses ascii (l.flatMap (Condition.text spell)) := by
  induction l with
  | nil => exact crosses_nil
  | cons c l ih =>
    rw [List.flatMap_cons, List.forall_mem_append] at hpieces henclosed
    exact (crosses_condition hpieces.1 henclosed.1).append (ih hpieces.2 henclosed.2)

private theorem Compound.Spelled.crosses {c : Compound P} (hc : c.Spelled spell ascii) :
    Crosses ascii (c.text spell) := by
  have hpieces := hc.loose
  rw [pieces, List.forall_mem_append] at hpieces
  refine .append ?_ (crosses_conditions hpieces.2 hc.enclosed)
  obtain ⟨_ | _ | ⟨name, alphabetic⟩, conditions⟩ := c
  · exact crosses_nil
  · exact crosses_loose (by simp [Loose]; decide)
  · exact crosses_name hpieces.1

/-! ### Selectors -/

/-- Whatever part has begun before it, a text adds the weight `v` to it. `goesOn` says what the part
may go on with. -/
def Adds (ascii : Prop) (goesOn : List Char → Prop) (rest : List Char) (v : Specificity) : Prop :=
  ∀ d acc w, d = 0 ∨ ascii → Carries goesOn acc w →
    .sum ((partsFrom none d acc rest).map part) = w.add v

variable {goesOn : List Char → Prop} {rest ws : List Char} {v : Specificity} {c : Char}

private theorem follows_nil : Follows [] := by
  exact ⟨by rintro d ⟨⟩, by rintro ⟨⟩⟩

private theorem adds_nil : Adds ascii Follows [] .zero := by
  intro d acc w _ hacc
  rw [partsFrom, sum_map_part_finished, hacc.part_reverse follows_nil, Specificity.add_zero]

-- A part that may go on with anything may go on with what follows a condition.
private theorem Adds.weaken (h : Adds ascii Follows rest v) : Adds ascii (fun _ ↦ True) rest v := by
  intro d acc w hd hacc
  exact h d acc w hd fun x _ ↦ hacc x trivial

private theorem Adds.compound {c : Compound P} (hc : c.Spelled spell ascii)
    (h : Adds ascii Follows rest v) :
    Adds ascii (fun _ ↦ True) (c.text spell ++ rest) ((c.weight spell).add v) := by
  intro d acc w hd hacc
  obtain ⟨d', hd', hcross⟩ := hc.crosses d hd
  rw [hcross, ← Specificity.add_assoc]
  apply h d' _ _ hd'
  intro x hx
  rw [List.reverse_append, List.reverse_reverse, List.append_assoc, hacc _ trivial,
    Compound.part_text hc hx, Specificity.add_assoc]

private theorem Adds.sign (hc : IsSign c) (h : Adds ascii (fun _ ↦ True) rest v) :
    Adds ascii Follows (c :: rest) v := by
  intro d acc w hd hacc
  have hplain : Plain c := by
    rcases hc with rfl | rfl | rfl <;> simp [Plain]
  rw [partsFrom_plain d hplain fun hspace ↦ absurd hspace hc.not_isSpace]
  apply h d _ _ hd
  intro x _
  have hfollows : Follows (c :: x) := by
    rcases hc with rfl | rfl | rfl <;> exact ⟨by rintro d ⟨⟩; decide, by simp⟩
  rw [List.reverse_cons, List.append_assoc, List.singleton_append, hacc _ hfollows, part_sign hc]

/-- ASCII white space ends a name and weighs nothing. -/
private theorem asciiSpace (rest : List Char) (hspace : Text.isSpace c) (hascii : c.toNat < 128) :
    (isNameChar c = false ∧ c ≠ '\\' ∧ c ≠ '(') ∧ part (c :: rest) = part rest := by
  have hall : ∀ n < 128, Text.isSpace (Char.ofNat n) →
      isNameChar (Char.ofNat n) = false ∧ Text.isAlphabetic (Char.ofNat n) = false := by
    decide +kernel
  obtain ⟨hname, halphabetic⟩ := hall c.toNat hascii (by rwa [Char.ofNat_toNat])
  rw [Char.ofNat_toNat] at hname halphabetic
  have hne (d : Char) (hd : Text.isSpace d = false) : c ≠ d := by
    rintro rfl
    exact absurd hspace (by simp [hd])
  refine ⟨⟨hname, hne '\\' rfl, hne '(' rfl⟩, ?_⟩
  rw [part_other (hne '#' rfl) (hne '.' rfl) (hne '[' rfl) (hne ':' rfl), halphabetic]
  rfl

/-- White space ends the part, or weighs nothing in it where brackets are open. -/
private theorem Adds.space (hspace : Text.isSpace c) (hascii : ascii → c.toNat < 128)
    (h : Adds ascii (fun _ ↦ True) rest v) : Adds ascii Follows (c :: rest) v := by
  intro d acc w hd hacc
  obtain ⟨hquote, hopen, hclose⟩ := plain_of_isSpace hspace
  by_cases hzero : d = 0
  · rw [partsFrom, if_neg hquote, if_neg hopen, if_neg hclose, if_pos ⟨hspace, hzero⟩,
      List.map_append, Specificity.sum_append, sum_map_part_finished,
      hacc.part_reverse follows_nil, h 0 [] .zero (.inl rfl) carries_nil, Specificity.zero_add]
  · rw [partsFrom_plain d (plain_of_isSpace hspace) fun _ ↦ hzero]
    apply h d _ _ hd
    intro x _
    obtain ⟨hends, hpart⟩ := asciiSpace x hspace (hascii (hd.resolve_left hzero))
    have hfollows : Follows (c :: x) := by
      refine ⟨?_, by simpa using hends.2.2⟩
      rintro d ⟨⟩
      exact ⟨hends.1, hends.2.1⟩
    rw [List.reverse_cons, List.append_assoc, List.singleton_append, hacc _ hfollows, hpart]

private theorem Adds.spaces (hws : Spaces ws) (hascii : ascii → ∀ c ∈ ws, c.toNat < 128)
    (h : Adds ascii (fun _ ↦ True) rest v) : Adds ascii (fun _ ↦ True) (ws ++ rest) v := by
  induction ws with
  | nil => exact h
  | cons c ws ih =>
    obtain ⟨hc, hws⟩ := List.forall_mem_cons.mp hws
    have hrest := ih hws fun ha ↦ (List.forall_mem_cons.mp (hascii ha)).2
    exact (hrest.space hc fun ha ↦ hascii ha c List.mem_cons_self).weaken

private theorem Adds.join {j : Join} (hascii : ascii → ∀ c ∈ j.spaces, c.toNat < 128)
    (h : Adds ascii (fun _ ↦ True) rest v) : Adds ascii Follows (j.text ++ rest) v := by
  cases j with
  | space first more spaces =>
    obtain ⟨hfirst, hmore⟩ := List.forall_mem_cons.mp spaces
    have hrest := h.spaces hmore fun ha ↦ (List.forall_mem_cons.mp (hascii ha)).2
    exact hrest.space hfirst fun ha ↦ hascii ha first List.mem_cons_self
  | sign before c behind spaces isSign spaces' =>
    have hascii' := fun ha ↦ List.forall_mem_append.mp (hascii ha)
    have hsign := (h.spaces spaces' fun ha ↦ (hascii' ha).2).sign isSign
    rw [Join.text, List.append_assoc]
    cases before with
    | nil => exact hsign
    | cons b before =>
      obtain ⟨hb, hbefore⟩ := List.forall_mem_cons.mp spaces
      have hrest := hsign.weaken.spaces hbefore
        fun ha ↦ (List.forall_mem_cons.mp (hascii' ha).1).2
      exact hrest.space hb fun ha ↦ (hascii' ha).1 b List.mem_cons_self

private theorem adds_others {others : List (Join × Compound P)}
    (hspelled : ∀ o ∈ others, o.2.Spelled spell ascii)
    (hascii : ascii → ∀ o ∈ others, ∀ c ∈ o.1.spaces, c.toNat < 128) :
    Adds ascii Follows (others.flatMap fun o ↦ o.1.text ++ o.2.text spell)
      (.sum (others.map fun o ↦ o.2.weight spell)) := by
  induction others with
  | nil => exact adds_nil
  | cons o others ih =>
    obtain ⟨ho, hothers⟩ := List.forall_mem_cons.mp hspelled
    have hrest := ih hothers fun ha ↦ (List.forall_mem_cons.mp (hascii ha)).2
    rw [List.flatMap_cons, List.append_assoc, List.map_cons, Specificity.sum_cons]
    exact (hrest.compound ho).join fun ha ↦ hascii ha o List.mem_cons_self

/-! ### Sums -/

private theorem countP_cons {α : Type} (p : α → Bool) (a : α) (l : List α) :
    (a :: l).countP p = (p a).toNat + l.countP p := by
  cases h : p a <;> simp [h, Nat.add_comm]

private theorem sum_conditions (spell : P → List Char) (l : List (Condition P)) :
    Specificity.sum (l.map (Condition.weight spell)) =
      ⟨l.countP Condition.isId, l.countP (Condition.isClass spell),
        l.countP (Condition.isElement spell)⟩ := by
  induction l with
  | nil => rfl
  | cons c l ih =>
    rw [List.map_cons, Specificity.sum_cons, ih]
    simp only [countP_cons]
    rfl

private theorem sum_compounds (spell : P → List Char) (l : List (Compound P)) :
    Specificity.sum (l.map (Compound.weight spell)) =
      .add ⟨0, 0, l.countP Compound.isTyped⟩
        (.sum ((l.flatMap Compound.conditions).map (Condition.weight spell))) := by
  induction l with
  | nil => rfl
  | cons c l ih =>
    rw [List.map_cons, Specificity.sum_cons, ih, List.flatMap_cons, List.map_append,
      Specificity.sum_append, countP_cons]
    simp only [Compound.weight, Specificity.add, Specificity.mk.injEq]
    omega

/-- What is read off the text of a selector is what is counted in the selector, where every compound
is spelled so that both passes go past it. -/
theorem weigh_text {s : Chain P} (hspelled : ∀ c ∈ s.compounds, c.Spelled spell ascii)
    (hascii : ascii → ∀ o ∈ s.others, ∀ c ∈ o.1.spaces, c.toNat < 128) :
    weigh (String.ofList (s.text spell)) = s.counts spell := by
  obtain ⟨hfirst, hothers⟩ := List.forall_mem_cons.mp hspelled
  have hadds := (adds_others (List.forall_mem_map.mp hothers) hascii).compound hfirst
  have htotal := hadds 0 [] .zero (.inl rfl) carries_nil
  rw [weigh, String.toList_ofList, parts, Chain.text, htotal, Specificity.zero_add]
  have hsum := sum_compounds spell s.compounds
  rw [Chain.compounds, List.map_cons, List.map_map, Specificity.sum_cons] at hsum
  refine hsum.trans ?_
  rw [sum_conditions, Specificity.add, Nat.zero_add, Nat.zero_add]
  rfl

/-! ### Names of characters -/

theorem NameChar.reads (c : NameChar) : Reads NameChar.spelled c := by
  intro x
  exact spanName_cons c.isNameChar

private theorem Name.enclosed_chars (n : Name NameChar) :
    Enclosed (n.text NameChar.spelled) :=
  enclosed_of_plain (List.forall_mem_cons.mpr ⟨n.first.plain,
    List.forall_mem_flatMap.mpr fun c _ ↦ List.forall_mem_singleton.mpr c.plain⟩)

theorem Compound.spelled_chars (c : Compound NameChar) : c.Spelled NameChar.spelled False where
  reads p _ := p.reads
  loose p _ := List.forall_mem_singleton.mpr p.loose
  enclosed n _ := n.enclosed_chars

end Extended

open Extended

/-- The weight read off a text, also beyond the parser's grammar: the number of ids, of classes and
of types in it. What stands in brackets, what joins compounds and `*` do not count. -/
theorem weigh_extended (s : Chain NameChar) :
    weigh (String.ofList (s.text NameChar.spelled)) =
      ⟨s.conditions.countP Condition.isId,
        s.conditions.countP (Condition.isClass NameChar.spelled),
        s.compounds.countP Compound.isTyped +
          s.conditions.countP (Condition.isElement NameChar.spelled)⟩ :=
  weigh_text (fun c _ ↦ c.spelled_chars) False.elim

example : weigh "ul>li:not(.a [b='] .c'])::marker :BEFORE *" = ⟨0, 1, 4⟩ := by decide +kernel

end StyleCheck.Selector
