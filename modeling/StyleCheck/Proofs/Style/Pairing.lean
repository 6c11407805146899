import StyleCheck.Proofs.Style.Merging

/-!
# Pairing

Which of the values written in a block a declaration of its rule is given. Names are compared
without regard to case, so the value is the last one written for the property, unless the block
also declares a custom property whose name differs by case alone. Main statement: the values of
the declarations of a rule whose block is at hand.
-/

namespace StyleCheck.Style

open Css (CanonicalDeclaration StyleRule)

/-- Two names are those of one property. Custom properties are told apart by case, others are
not. -/
def SameProperty (a b : String) : Prop :=
  if Css.Sheet.isCustom a then a = b else Text.sameIgnoringCase a b

instance (a b : String) : Decidable (SameProperty a b) := by
  unfold SameProperty; infer_instance

/-- The last member of a list with a property. -/
def LastOf {α : Type} (P : α → Prop) (l : List α) (x : α) : Prop :=
  ∃ before after, l = before ++ x :: after ∧ P x ∧ ∀ y ∈ after, ¬ P y

namespace Declaration

/-- A written declaration is one of the same property with the same importance. -/
def WrittenAs (d : Declaration) (w : WrittenDeclaration) : Prop :=
  SameProperty d.property w.property ∧ w.important = d.important

/-- A written declaration is one of a property whose name is the same up to case, with the same
importance. -/
def WrittenLike (d : Declaration) (w : WrittenDeclaration) : Prop :=
  Text.sameIgnoringCase w.property d.property ∧ w.important = d.important

instance (d : Declaration) (w : WrittenDeclaration) : Decidable (d.WrittenAs w) := by
  unfold WrittenAs; infer_instance

instance (d : Declaration) (w : WrittenDeclaration) : Decidable (d.WrittenLike w) := by
  unfold WrittenLike; infer_instance

/-- The value is the one that the last written declaration of a kind has; if there is none of that
kind, it is the canonical one. -/
structure TakesFrom (d : Declaration) (P : WrittenDeclaration → Prop)
    (block : List WrittenDeclaration) : Prop where
  written : ∀ w, LastOf P block w → d.value = w.value
  canonical : (∀ w ∈ block, ¬ P w) → d.value = d.canonical

/-- Behind the last written declaration of a custom property there is none whose name differs by
case alone. -/
def ToldByCase (d : Declaration) (block : List WrittenDeclaration) : Prop :=
  Css.Sheet.isCustom d.property → ∀ w, LastOf d.WrittenLike block w → w.property = d.property

end Declaration

/-! ### The search for a written value -/

theorem find?_reverse_of_lastOf {α : Type} {p : α → Bool} {l : List α} {x : α}
    (h : LastOf (fun y ↦ p y) l x) : l.reverse.find? p = some x := by
  obtain ⟨before, after, rfl, hx, hafter⟩ := h
  rw [List.find?_eq_some_iff_append]
  refine ⟨hx, after.reverse, before.reverse, by simp, ?_⟩
  intro y hy
  simpa using hafter y (List.mem_reverse.mp hy)

theorem LastOf.unique {α : Type} {P : α → Prop} {l : List α} {x y : α} (hx : LastOf P l x)
    (hy : LastOf P l y) : x = y := by
  classical
  have hfind : ∀ z, LastOf P l z → l.reverse.find? (fun z ↦ decide (P z)) = some z := fun z hz ↦
    find?_reverse_of_lastOf (by simpa using hz)
  exact Option.some.inj ((hfind x hx).symm.trans (hfind y hy))

theorem exists_lastOf {α : Type} {P : α → Prop} {l : List α} {x : α} (hx : x ∈ l) (h : P x) :
    ∃ y, LastOf P l y := by
  induction l generalizing x with
  | nil => cases hx
  | cons a rest ih =>
    by_cases hrest : ∃ z ∈ rest, P z
    · obtain ⟨z, hz, hPz⟩ := hrest
      obtain ⟨y, before, after, rfl, hy⟩ := ih hz hPz
      exact ⟨y, a :: before, after, rfl, hy⟩
    · rcases List.mem_cons.mp hx with rfl | hx
      · exact ⟨x, [], rest, rfl, h, fun z hz hPz ↦ hrest ⟨z, hz, hPz⟩⟩
      · exact absurd ⟨x, hx, h⟩ hrest

/-- A declaration takes its value from the last one that is written like it. -/
theorem takesFrom_ofCanonical (block : List WrittenDeclaration) (ruleIndex : Nat)
    (c : CanonicalDeclaration) :
    let d := Declaration.ofCanonical (some block) ruleIndex c
    d.TakesFrom d.WrittenLike block := by
  intro d
  let like := fun w : WrittenDeclaration ↦
    Text.sameIgnoringCase w.property c.property && w.important == c.important
  have hlike : ∀ w, d.WrittenLike w ↔ like w := by
    intro w
    simp [Declaration.WrittenLike, d, like, Declaration.ofCanonical]
  have hvalue : d.value = ((block.reverse.find? like).map WrittenDeclaration.value).getD c.value :=
    rfl
  constructor
  · intro w hw
    rw [funext fun w ↦ propext (hlike w)] at hw
    rw [hvalue, find?_reverse_of_lastOf hw]
    rfl
  · intro hnone
    have hfind : block.reverse.find? like = none := by
      rw [List.find?_eq_none]
      intro w hw hw'
      exact hnone w (List.mem_reverse.mp hw) ((hlike w).mpr hw')
    rw [hvalue, hfind]
    rfl

/-! ### Names told by case -/

section

variable {d : Declaration} {w : WrittenDeclaration} {block : List WrittenDeclaration}

theorem Declaration.WrittenAs.like (h : d.WrittenAs w) : d.WrittenLike w := by
  refine ⟨?_, h.2⟩
  have hname := h.1
  unfold SameProperty at hname
  split at hname
  · rw [hname, Text.sameIgnoringCase, beq_self_eq_true]
  · rwa [Text.sameIgnoringCase, Bool.beq_comm] at hname

/-- Where case tells names apart, the last declaration that is written like another is one of the
same property. -/
theorem Declaration.ToldByCase.writtenAs (h : d.ToldByCase block)
    (hw : LastOf d.WrittenLike block w) : d.WrittenAs w := by
  obtain ⟨_, _, _, ⟨hname, himportant⟩, _⟩ := id hw
  refine ⟨?_, himportant⟩
  unfold SameProperty
  split
  next hcustom => exact (h hcustom w hw).symm
  next =>
    rw [Text.sameIgnoringCase, Bool.beq_comm]
    exact hname

/-- Where case tells names apart, the last declaration that is written like another is the last one
of the same property. -/
theorem Declaration.ToldByCase.lastOf (h : d.ToldByCase block) (hw : LastOf d.WrittenAs block w) :
    LastOf d.WrittenLike block w := by
  obtain ⟨before, after, rfl, hwritten, hafter⟩ := hw
  refine ⟨before, after, rfl, hwritten.like, ?_⟩
  intro x hx hlike
  obtain ⟨y, hy⟩ := exists_lastOf hx hlike
  obtain ⟨between, behind, rfl, hlast⟩ := hy
  apply hafter y (by simp)
  exact h.writtenAs ⟨before ++ w :: between, behind, by simp, hlast⟩

theorem Declaration.TakesFrom.writtenAs (h : d.TakesFrom d.WrittenLike block)
    (htold : d.ToldByCase block) : d.TakesFrom d.WrittenAs block where
  written := fun w hw ↦ h.written w (htold.lastOf hw)
  canonical := by
    intro hnone
    apply h.canonical
    intro w hw hlike
    obtain ⟨y, hy⟩ := exists_lastOf hw hlike
    obtain ⟨before, after, hblock, -⟩ := id hy
    exact hnone y (by simp [hblock]) (htold.writtenAs hy)

end

/-! ### Rules -/

/-- Where there are as many blocks as rules, each rule is paired with the block in its place. -/
theorem getElem?_pairRules {parsed : List StyleRule} {blocks : List (List WrittenDeclaration)}
    (hlen : blocks.length = parsed.length) (i : Nat) :
    (pairRules parsed blocks)[i]? = parsed[i]?.map (Rule.ofStyleRule blocks[i]? i) := by
  rw [pairRules, List.getElem?_map, List.getElem?_zipIdx, Option.map_map]
  simp only [hlen, if_true, Nat.zero_add]
  rfl

/-- A rule declares each property that was delivered for it, as important if one of the delivered
declarations is. -/
theorem exists_mem_ofStyleRule (block : Option (List WrittenDeclaration)) (ruleIndex : Nat)
    {r : StyleRule} {c : CanonicalDeclaration} (hc : c ∈ r.declarations) :
    ∃ d ∈ (Rule.ofStyleRule block ruleIndex r).declarations.entries,
      d.property = c.property ∧ (c.important → d.important) := by
  have hordered : (r.declarations.map (Declaration.ofCanonical block ruleIndex)).Pairwise
      fun d e ↦ d.ruleIndex ≤ e.ruleIndex := by
    rw [List.pairwise_map]
    exact List.pairwise_of_forall fun _ _ ↦ Nat.le_refl ruleIndex
  obtain ⟨d, hd, hproperty, hrank⟩ := Declarations.exists_yields_of_insertAll hordered
    (List.mem_map_of_mem hc)
  refine ⟨d, hd, hproperty.symm, ?_⟩
  intro himp
  have himp' : (Declaration.ofCanonical block ruleIndex c).important = true := himp
  rcases hrank with hlt | ⟨heq, -⟩
  · rw [himp'] at hlt
    exact absurd hlt (by cases d.important <;> decide)
  · rw [← heq, himp']

/-- Every declaration of a rule was delivered for it. -/
theorem exists_of_mem_ofStyleRule {block : Option (List WrittenDeclaration)} {ruleIndex : Nat}
    {r : StyleRule} {d : Declaration}
    (hd : d ∈ (Rule.ofStyleRule block ruleIndex r).declarations.entries) :
    ∃ c ∈ r.declarations, Declaration.ofCanonical block ruleIndex c = d := by
  rcases Declarations.mem_of_mem_insertAll hd with hd | hd
  · cases hd
  · exact List.mem_map.mp hd

/-- The declarations of a rule whose block is at hand are those delivered for it, one for each
property. Each has the value that the block last gives to its name in whatever case, with the same
importance, and its canonical value if there is none. This is the value last written for the
property itself, unless the name is custom and the block declares it in another case too. -/
theorem value_pairRules {parsed : List StyleRule} {blocks : List (List WrittenDeclaration)}
    (hlen : blocks.length = parsed.length) {i : Nat} {r : StyleRule}
    {block : List WrittenDeclaration} (hr : parsed[i]? = some r) (hb : blocks[i]? = some block) :
    ∃ rule, (pairRules parsed blocks)[i]? = some rule ∧
      (∀ c ∈ r.declarations, ∃ d ∈ rule.declarations.entries,
        d.property = c.property ∧ (c.important → d.important)) ∧
      ∀ d ∈ rule.declarations.entries,
        (∃ c ∈ r.declarations, d.property = c.property ∧ d.canonical = c.value ∧
          d.important = c.important) ∧
        d.TakesFrom d.WrittenLike block ∧
        (d.ToldByCase block → d.TakesFrom d.WrittenAs block) := by
  refine ⟨Rule.ofStyleRule (some block) i r, ?_, ?_, ?_⟩
  · rw [getElem?_pairRules hlen, hr, hb]
    rfl
  · exact fun c hc ↦ exists_mem_ofStyleRule _ i hc
  · intro d hd
    obtain ⟨c, hc, rfl⟩ := exists_of_mem_ofStyleRule hd
    have htakes := takesFrom_ofCanonical block i c
    exact ⟨⟨c, hc, rfl, rfl, rfl⟩, htakes, htakes.writtenAs⟩

/-- A custom property that is declared twice has its last value, though the block declares it in
another case in between. -/
theorem value_pairRules_repeated :
    let block : List WrittenDeclaration := [⟨"--X", "1", false⟩, ⟨"--x", "One", false⟩,
      ⟨"color", "#0F0", true⟩, ⟨"--X", "2", false⟩, ⟨"color", "Blue", false⟩]
    let r : StyleRule := ⟨[".a"], [⟨"--X", "1", false⟩, ⟨"--x", "One", false⟩, ⟨"--X", "2", false⟩,
      ⟨"color", "#00f", false⟩, ⟨"color", "#0f0", true⟩], 0⟩
    let x : Declaration := ⟨"--X", "2", "2", false, 0⟩
    let color : Declaration := ⟨"color", "#0F0", "#0f0", true, 0⟩
    let rule : Rule := ⟨[".a"], ⟨[x, ⟨"--x", "2", "One", false, 0⟩, color]⟩⟩
    pairRules [r] [block] = [rule] ∧ x.TakesFrom x.WrittenAs block ∧
      color.TakesFrom color.WrittenAs block := by
  intro block r x color rule
  have hrule : pairRules [r] [block] = [rule] := by decide +kernel
  have hlen : [block].length = [r].length := rfl
  obtain ⟨rule', hrule', -, hvalues⟩ := value_pairRules hlen (i := 0) rfl rfl
  rw [hrule] at hrule'
  obtain rfl : rule = rule' := Option.some.inj hrule'
  have hlast : LastOf x.WrittenLike block ⟨"--X", "2", false⟩ :=
    ⟨block.take 3, block.drop 4, rfl, by decide, by decide⟩
  have htold : x.ToldByCase block := by
    intro _ w hw
    rw [hw.unique hlast]
  have hordinary : color.ToldByCase block := fun hcustom ↦ absurd hcustom (by decide)
  exact ⟨hrule, (hvalues x (by decide)).2.2 htold, (hvalues color (by decide)).2.2 hordinary⟩

/-- A custom property is given the value of another one, if that one is declared behind it and its
name differs by case alone. -/
theorem value_of_other_case :
    let css := ".a \x7b --Foo: a; --foo: b; \x7d"
    let block : List WrittenDeclaration := [⟨"--Foo", "a", false⟩, ⟨"--foo", "b", false⟩]
    let d : Declaration := ⟨"--Foo", "b", "a", false, 0⟩
    let rule : Rule := ⟨[".a"], ⟨[d, ⟨"--foo", "b", "b", false, 0⟩]⟩⟩
    Written.styleBlocks css = [block] ∧ (readRules css).toOption = some [rule] ∧
      ¬ d.TakesFrom d.WrittenAs block := by
  intro css block d rule
  refine ⟨by decide +kernel, by decide +kernel, ?_⟩
  intro h
  have hlast : LastOf d.WrittenAs block ⟨"--Foo", "a", false⟩ :=
    ⟨[], block.drop 1, rfl, by decide, by decide⟩
  exact absurd (h.written _ hlast) (by decide)

end StyleCheck.Style
