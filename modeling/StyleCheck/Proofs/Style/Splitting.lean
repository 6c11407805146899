import StyleCheck.Proofs.Style.Candidates

/-!
# Split rules

A rule whose selector list is cut in two becomes two rules with the same declarations, one behind
the other, and the rules behind it move up by one place. Other rules than before may then be merged,
but the winner of the cascade is the same.
-/

namespace StyleCheck.Style

/-! ### Places of rules -/

/-- The declaration in the rule at another place. -/
def Declaration.placedAt (place : Nat) (d : Declaration) : Declaration :=
  { d with ruleIndex := place }

/-- The rule at another place. -/
def Rule.placedAt (place : Nat) (r : Rule) : Rule :=
  { r with declarations := ⟨r.declarations.entries.map (·.placedAt place)⟩ }

/-- The rules with the places at which they stand. -/
def renumber (rules : List Rule) : List Rule := rules.zipIdx.map fun (r, i) ↦ r.placedAt i

theorem Declaration.placedAt_placedAt (i j : Nat) (d : Declaration) :
    (d.placedAt i).placedAt j = d.placedAt j :=
  rfl

theorem Declaration.placedAt_ruleIndex (d : Declaration) : d.placedAt d.ruleIndex = d := rfl

theorem getElem?_renumber (rules : List Rule) (i : Nat) :
    (renumber rules)[i]? = rules[i]?.map (·.placedAt i) := by
  simp [renumber, List.getElem?_zipIdx, Function.comp_def]

/-- The place that a rule had before the rule at the place `n` was split, by its place now. -/
def collapse (n place : Nat) : Nat := if place ≤ n then place else place - 1

theorem collapse_mono (n : Nat) {i j : Nat} (h : i ≤ j) : collapse n i ≤ collapse n j := by
  unfold collapse
  split <;> split <;> omega

/-- What some rules declare: the place of each rule, its selectors and its declarations. -/
def declared (rules : List Rule) : List (Nat × String × Declaration) :=
  rules.zipIdx.flatMap fun (r, i) ↦ r.selectors.flatMap fun s ↦
    r.declarations.entries.map fun d ↦ (i, s, d)

theorem mem_declared {rules : List Rule} {i : Nat} {s : String} {d : Declaration} :
    (i, s, d) ∈ declared rules ↔
      ∃ r, rules[i]? = some r ∧ s ∈ r.selectors ∧ d ∈ r.declarations.entries := by
  simp only [declared, List.mem_flatMap, List.mem_map, Prod.exists, List.mem_zipIdx_iff_getElem?,
    Prod.mk.injEq]
  constructor
  · rintro ⟨r, _, hr, _, hs, _, hd, rfl, rfl, rfl⟩
    exact ⟨r, hr, hs, hd⟩
  · rintro ⟨r, hr, hs, hd⟩
    exact ⟨r, i, hr, s, hs, d, hd, rfl, rfl, rfl⟩

theorem mem_declared_renumber {rules : List Rule} {i : Nat} {s : String} {d : Declaration} :
    (i, s, d) ∈ declared (renumber rules) ↔
      ∃ d', (i, s, d') ∈ declared rules ∧ d'.placedAt i = d := by
  simp only [mem_declared, getElem?_renumber, Option.map_eq_some_iff]
  constructor
  · rintro ⟨_, ⟨r, hr, rfl⟩, hs, hd⟩
    obtain ⟨d', hd', rfl⟩ := List.mem_map.mp hd
    exact ⟨d', ⟨r, hr, hs, hd'⟩, rfl⟩
  · rintro ⟨d', ⟨r, hr, hs, hd'⟩, rfl⟩
    exact ⟨_, ⟨r, hr, rfl⟩, hs, List.mem_map_of_mem hd'⟩

/-- The declarations of a parsed sheet know their places. -/
theorem ParsedSheet.ruleIndex_eq (parsed : ParsedSheet) {i : Nat} {s : String} {d : Declaration}
    (h : (i, s, d) ∈ declared parsed.rules) : d.ruleIndex = i := by
  obtain ⟨r, hr, -, hd⟩ := mem_declared.mp h
  exact parsed.placed i r hr d hd

/-- A split rule changes nothing of what is declared but the places. -/
theorem declared_split (before after : List Rule) (first second : List String)
    (declarations : Declarations) :
    declared (before ++ ⟨first ++ second, declarations⟩ :: after) =
      (declared (before ++ ⟨first, declarations⟩ :: ⟨second, declarations⟩ :: after)).map
        fun x ↦ (collapse before.length x.1, x.2) := by
  simp only [declared, List.zipIdx_append, List.zipIdx_cons, List.flatMap_append,
    List.flatMap_cons, List.map_append, List.map_map, List.map_flatMap, List.append_assoc,
    Nat.zero_add, Function.comp_def]
  -- the rules before the split one, its two parts, and the rules behind it
  congr 1
  · refine List.flatMap_congr fun x hx ↦ ?_
    have hlt : x.2 < before.length := by simpa using List.snd_lt_of_mem_zipIdx hx
    simp [collapse, Nat.le_of_lt hlt]
  rw [List.zipIdx_succ (i := before.length + 1), List.flatMap_map]
  congr 1
  · simp [collapse]
  congr 1
  · simp only [collapse, if_neg (Nat.not_succ_le_self before.length), Nat.add_sub_cancel]
  · refine List.flatMap_congr fun x hx ↦ ?_
    have hge : before.length + 1 ≤ x.2 := List.le_snd_of_mem_zipIdx hx
    simp [collapse, Nat.not_le.mpr (Nat.lt_succ_of_lt hge)]

/-! ### Declarations of the split rules -/

/-- The rank of the contender before the rule at the place `n` was split. -/
def Rank.collapse (n : Nat) (r : Rank) : Rank :=
  { r with ruleIndex := Style.collapse n r.ruleIndex }

theorem Rank.collapse_mono (n : Nat) {a b : Rank} (h : a ≤ b) : a.collapse n ≤ b.collapse n := by
  rw [le_iff] at h ⊢
  rcases h with h | ⟨hi, h | ⟨hs, h | ⟨hk, h⟩⟩⟩
  · exact .inl h
  · exact .inr ⟨hi, .inl h⟩
  · exact .inr ⟨hi, .inr ⟨hs, .inl h⟩⟩
  · exact .inr ⟨hi, .inr ⟨hs, .inr ⟨hk, Style.collapse_mono n h⟩⟩⟩

namespace Origin

/-- Where the declaration stood before the rule at the place `n` was split. -/
def collapse (n : Nat) (o : Origin) : Origin :=
  { o with
    rule := Style.collapse n o.rule
    declaration := o.declaration.placedAt (Style.collapse n o.rule) }

theorem rank_collapse (n : Nat) (o : Origin) : (o.collapse n).rank = o.rank.collapse n := rfl

/-- What counts in a registry of one sheet. -/
theorem declares_singleton {parsed : ParsedSheet} {isMatch : String → Bool} {p : String}
    {o : Origin} : o.Declares [parsed] isMatch p ↔
      o.sheet = 0 ∧ (o.rule, o.selector, o.declaration) ∈ declared parsed.rules ∧
        isMatch o.selector ∧ o.declaration.property = p := by
  rw [mem_declared]
  constructor
  · rintro ⟨⟨parsed', r, hsheet, hr, hs, hd⟩, hm, hp⟩
    obtain ⟨hlt, hparsed⟩ := List.getElem?_eq_some_iff.mp hsheet
    rw [List.getElem_singleton] at hparsed
    subst hparsed
    exact ⟨Nat.lt_one_iff.mp hlt, ⟨r, hr, hs, hd⟩, hm, hp⟩
  · rintro ⟨hzero, ⟨r, hr, hs, hd⟩, hm, hp⟩
    exact ⟨⟨parsed, r, by rw [hzero]; rfl, hr, hs, hd⟩, hm, hp⟩

section

-- `split` is `whole` with the rule at the place `n` split, both without regard to merging
variable {whole split : ParsedSheet} {rules : List Rule} {n : Nat}
  (hsplit : split.rules = renumber rules)
  (hwhole : declared whole.rules = (declared rules).map fun x ↦ (Style.collapse n x.1, x.2))
  {isMatch : String → Bool} {p : String} {o : Origin}

include hsplit hwhole

/-- What is declared after the split was declared before it. -/
theorem Declares.collapse (h : o.Declares [split] isMatch p) :
    (o.collapse n).Declares [whole] isMatch p := by
  obtain ⟨hsheet, hd, hm, hp⟩ := declares_singleton.mp h
  rw [hsplit, mem_declared_renumber] at hd
  obtain ⟨d, hd, he⟩ := hd
  have hmem : (Style.collapse n o.rule, o.selector, d) ∈ declared whole.rules := by
    rw [hwhole]
    exact List.mem_map_of_mem hd
  have hplaced : o.declaration.placedAt (Style.collapse n o.rule) = d := by
    rw [← he, Declaration.placedAt_placedAt, ← whole.ruleIndex_eq hmem,
      Declaration.placedAt_ruleIndex]
  refine declares_singleton.mpr ⟨hsheet, ?_, hm, hp⟩
  rw [Origin.collapse, hplaced]
  exact hmem

/-- What was declared before the split is declared after it. -/
theorem Declares.exists_collapse_eq (h : o.Declares [whole] isMatch p) :
    ∃ o', Declares [split] isMatch p o' ∧ o'.collapse n = o := by
  obtain ⟨hsheet, hd, hm, hp⟩ := declares_singleton.mp h
  have hplace := whole.ruleIndex_eq hd
  rw [hwhole, List.mem_map] at hd
  obtain ⟨⟨i, s, d⟩, hd, he⟩ := hd
  obtain ⟨hi, rfl, rfl⟩ : _ ∧ _ ∧ _ := by simpa using he
  refine ⟨⟨0, i, o.selector, o.declaration.placedAt i⟩, ?_, ?_⟩
  · refine declares_singleton.mpr ⟨rfl, ?_, hm, hp⟩
    rw [hsplit, mem_declared_renumber]
    exact ⟨_, hd, rfl⟩
  · have hplaced : o.declaration.placedAt (Style.collapse n i) = o.declaration := by
      rw [hi, ← hplace, Declaration.placedAt_ruleIndex]
    rw [Origin.collapse, Declaration.placedAt_placedAt, hplaced, hi, ← hsheet]

end

end Origin

/-! ### The best contender of a split sheet -/

/-- The contender before the rule at the place `n` was split. -/
def Contender.collapse (n : Nat) (c : Contender) : Contender :=
  ⟨c.declaration.placedAt (Style.collapse n c.rank.ruleIndex), c.rank.collapse n⟩

section

variable {parsed : ParsedSheet} {isMatch : String → Bool} {p : String}

private theorem sheets_single (parsed : ParsedSheet) :
    (Registry.empty.push parsed.merged).sheets.toList = [parsed].map ParsedSheet.merged :=
  rfl

private theorem contenders_merged (parsed : ParsedSheet) :
    contenders (parsed.merged.candidates isMatch 0) p =
      contenders ((Registry.empty.push parsed.merged).candidates isMatch) p := by
  rw [Registry.contenders_eq]
  exact (List.append_nil _).symm

/-- Every contender of a sheet stands in a source rule. -/
theorem ParsedSheet.exists_origin {c : Contender}
    (h : c ∈ contenders (parsed.merged.candidates isMatch 0) p) :
    ∃ o : Origin, o.Declares [parsed] isMatch p ∧ c = ⟨o.declaration, o.rank⟩ := by
  rw [contenders_merged] at h
  obtain ⟨o, ho, hd, hr⟩ := Origin.exists_of_mem_contenders (sheets_single parsed) h
  exact ⟨o, ho, by rw [hd, hr]⟩

/-- The best contender of a sheet has the highest of the ranks in the source rules. -/
theorem Origin.Declares.le_best {o : Origin} (h : o.Declares [parsed] isMatch p) :
    ∃ w, Contender.best (contenders (parsed.merged.candidates isMatch 0) p) = some w ∧
      o.rank ≤ w.rank := by
  obtain ⟨c, hc, hle⟩ := h.exists_contender (sheets_single parsed)
  rw [← contenders_merged] at hc
  cases hw : Contender.best (contenders (parsed.merged.candidates isMatch 0) p) with
  | none =>
    rw [Contender.best_eq_none.mp hw] at hc
    cases hc
  | some w => exact ⟨w, rfl, Rank.le_trans hle ((Contender.best_spec hw).2 c hc)⟩

end

section

variable {whole split : ParsedSheet} {rules : List Rule} {n : Nat}
  (hsplit : split.rules = renumber rules)
  (hwhole : declared whole.rules = (declared rules).map fun x ↦ (collapse n x.1, x.2))
  (isMatch : String → Bool) (p : String)

include hsplit hwhole

private theorem best_contenders_split_zero :
    Contender.best (contenders (whole.merged.candidates isMatch 0) p) =
      (Contender.best (contenders (split.merged.candidates isMatch 0) p)).map (·.collapse n) := by
  cases hs : Contender.best (contenders (split.merged.candidates isMatch 0) p) with
  | none =>
    cases hw : Contender.best (contenders (whole.merged.candidates isMatch 0) p) with
    | none => rfl
    | some w =>
      obtain ⟨o, ho, -⟩ := ParsedSheet.exists_origin (Contender.best_spec hw).1
      obtain ⟨o', ho', -⟩ := ho.exists_collapse_eq hsplit hwhole
      obtain ⟨s, hs', -⟩ := ho'.le_best
      cases hs.symm.trans hs'
  | some s =>
    obtain ⟨o, ho, rfl⟩ := ParsedSheet.exists_origin (Contender.best_spec hs).1
    have hcollapse := ho.collapse hsplit hwhole
    obtain ⟨w, hw, hle⟩ := hcollapse.le_best
    obtain ⟨ow, how, rfl⟩ := ParsedSheet.exists_origin (Contender.best_spec hw).1
    have hge : ow.rank ≤ (o.collapse n).rank := by
      obtain ⟨o', ho', rfl⟩ := how.exists_collapse_eq hsplit hwhole
      obtain ⟨s', hs', hle'⟩ := ho'.le_best
      cases hs.symm.trans hs'
      rw [Origin.rank_collapse, Origin.rank_collapse]
      exact Rank.collapse_mono n hle'
    have hrank : (o.collapse n).rank = ow.rank := Rank.le_antisymm hle hge
    rw [hw, Option.map_some, Option.some_inj, ← hrank, ← hcollapse.declaration_eq how hrank]
    rfl

/-- The best contender of a sheet is that of the split one, but for its place. -/
theorem best_contenders_split (k : Nat) :
    Contender.best (contenders (whole.merged.candidates isMatch k) p) =
      (Contender.best (contenders (split.merged.candidates isMatch k) p)).map (·.collapse n) := by
  have hmono : StrictMono (· + k) := fun _ _ h ↦ Nat.add_lt_add_right h k
  have hmap : ∀ cs : List Contender,
      Contender.best (cs.map (·.relocate (· + k))) = (Contender.best cs).map (·.relocate (· + k)) :=
    fun _ ↦ Contender.best_map (List.pairwise_of_forall (Contender.rank_relocate_le_iff hmono))
  rw [Stylesheet.contenders_eq k, Stylesheet.contenders_eq k, hmap, hmap,
    best_contenders_split_zero hsplit hwhole, Option.map_map, Option.map_map]
  rfl

end

/-! ### Among other sheets -/

theorem Rank.collapse_le_iff {a b : Rank} (h : a.sheetIndex ≠ b.sheetIndex) (n : Nat) :
    a.collapse n ≤ b ↔ a ≤ b := by
  simp [le_iff, collapse, h]

theorem Rank.le_collapse_iff {a b : Rank} (h : a.sheetIndex ≠ b.sheetIndex) (n : Nat) :
    a ≤ b.collapse n ↔ a ≤ b := by
  simp [le_iff, collapse, h]

namespace Contender

/-- The contender before the rule at the place `n` of the sheet at the place `k` was split. -/
def collapseAt (k n : Nat) (c : Contender) : Contender :=
  if c.rank.sheetIndex = k then c.collapse n else c

theorem placedAt_collapseAt (k n place : Nat) (c : Contender) :
    (c.collapseAt k n).declaration.placedAt place = c.declaration.placedAt place := by
  unfold collapseAt
  split <;> rfl

/-- Of two sheets, it does not count which rules of one of them were split. -/
theorem rank_collapseAt_le_iff {k : Nat} {a b : Contender}
    (h : ¬ (a.rank.sheetIndex = k ∧ b.rank.sheetIndex = k)) (n : Nat) :
    (a.collapseAt k n).rank ≤ (b.collapseAt k n).rank ↔ a.rank ≤ b.rank := by
  unfold collapseAt
  split <;> split
  · next ha hb => exact absurd ⟨ha, hb⟩ h
  · next ha hb => exact Rank.collapse_le_iff (ha ▸ Ne.symm hb) n
  · next ha hb => exact Rank.le_collapse_iff (hb ▸ ha) n
  · rfl

/-- The contenders of other sheets, as they stand before and behind those of the sheet at the
place `k`. -/
structure Around (k : Nat) (before after : List Contender) : Prop where
  before_ne : ∀ c ∈ before, c.rank.sheetIndex ≠ k
  after_ne : ∀ c ∈ after, c.rank.sheetIndex ≠ k

section

variable {k : Nat} {before after : List Contender} (h : Around k before after)

include h

/-- Not more than one of them all is of that sheet, if it has no more than one. -/
theorem Around.pairwise (b : Option Contender) : (before ++ b.toList ++ after).Pairwise
    fun a c ↦ ¬ (a.rank.sheetIndex = k ∧ c.rank.sheetIndex = k) := by
  have hne : ∀ c ∈ before ++ after, c.rank.sheetIndex ≠ k := by
    intro c hc
    exact (List.mem_append.mp hc).elim (h.before_ne c) (h.after_ne c)
  have hothers : (before ++ after).Pairwise
      fun a c ↦ ¬ (a.rank.sheetIndex = k ∧ c.rank.sheetIndex = k) :=
    List.pairwise_of_forall_mem_list fun a ha _ _ hk ↦ hne a ha hk.1
  cases b with
  | none => simpa using hothers
  | some s =>
    rw [Option.toList_some, List.append_assoc, List.singleton_append,
      List.pairwise_middle (fun hac hca ↦ hac hca.symm), List.pairwise_cons]
    exact ⟨fun c hc hk ↦ hne c hc hk.2, hothers⟩

theorem Around.map_collapseAt (n : Nat) {b : Option Contender}
    (hb : ∀ c ∈ b, c.rank.sheetIndex = k) :
    (before ++ b.toList ++ after).map (·.collapseAt k n) =
      before ++ (b.map (·.collapse n)).toList ++ after := by
  have hothers : ∀ {others : List Contender}, (∀ c ∈ others, c.rank.sheetIndex ≠ k) →
      others.map (·.collapseAt k n) = others := fun hne ↦
    (List.map_congr_left fun c hc ↦ if_neg (hne c hc)).trans (List.map_id _)
  rw [List.map_append, List.map_append, hothers h.before_ne, hothers h.after_ne]
  cases b with
  | none => rfl
  | some s =>
    rw [Option.toList_some, List.map_singleton, collapseAt, if_pos (hb s rfl)]
    rfl

/-- Among contenders of other sheets, those of a split sheet do as those of the whole one. -/
theorem Around.best_split {cs cs' : List Contender} {n : Nat}
    (hcs : ∀ c ∈ cs', c.rank.sheetIndex = k) (hbest : best cs = (best cs').map (·.collapse n)) :
    best (before ++ cs ++ after) = (best (before ++ cs' ++ after)).map (·.collapseAt k n) := by
  have hb : ∀ c ∈ best cs', c.rank.sheetIndex = k := fun c hc ↦ hcs c (best_spec hc).1
  rw [best_append_append, best_append_append before cs' after, hbest, ← h.map_collapseAt n hb,
    best_map ((h.pairwise (best cs')).imp fun hac ↦ rank_collapseAt_le_iff hac n)]

end

end Contender

theorem Stylesheet.sheetIndex_of_mem_contenders {sheet : Stylesheet} {isMatch : String → Bool}
    {k : Nat} {p : String} {c : Contender} (h : c ∈ contenders (sheet.candidates isMatch k) p) :
    c.rank.sheetIndex = k := by
  obtain ⟨candidate, hcandidate, hc⟩ := List.mem_filterMap.mp h
  obtain ⟨rule, -, hrule⟩ := List.mem_flatMap.mp hcandidate
  obtain ⟨selector, -, rfl⟩ := List.mem_map.mp hrule
  obtain ⟨d, -, rfl⟩ := Option.map_eq_some_iff.mp hc
  rfl

/-- The contenders of the sheet behind `left` stand among those of the other sheets, which do not
depend on it. -/
theorem Registry.exists_around (left right : List Stylesheet) (isMatch : String → Bool)
    (p : String) : ∃ before after, Contender.Around left.length before after ∧
      ∀ {registry : Registry} {sheet : Stylesheet},
        registry.sheets.toList = left ++ sheet :: right →
        contenders (registry.candidates isMatch) p =
          before ++ contenders (sheet.candidates isMatch left.length) p ++ after := by
  let others : List (Stylesheet × Nat) → List Contender := fun sheets ↦
    sheets.flatMap fun x ↦ contenders (x.1.candidates isMatch x.2) p
  have hplace : ∀ {sheets : List (Stylesheet × Nat)}, (∀ x ∈ sheets, x.2 ≠ left.length) →
      ∀ c ∈ others sheets, c.rank.sheetIndex ≠ left.length := by
    intro sheets hne c hc
    obtain ⟨x, hx, hc⟩ := List.mem_flatMap.mp hc
    rw [Stylesheet.sheetIndex_of_mem_contenders hc]
    exact hne x hx
  refine ⟨others left.zipIdx, others (right.zipIdx (left.length + 1)), ⟨?_, ?_⟩, ?_⟩
  · refine hplace fun x hx ↦ ?_
    have hlt := List.snd_lt_of_mem_zipIdx hx
    omega
  · refine hplace fun x hx ↦ ?_
    have hge := List.le_snd_of_mem_zipIdx hx
    omega
  · intro registry sheet hsheets
    rw [Registry.contenders_eq, hsheets, List.zipIdx_append, List.zipIdx_cons,
      List.flatMap_append, List.flatMap_cons, Nat.zero_add, List.append_assoc]

/-- A rule whose selectors are parted between two consecutive rules does not change the winner of
the cascade: it is the same declaration but for the place of its rule, whatever rules of the sheet
are merged and whatever other sheets are registered. -/
theorem cascadeWinner_split {ν : Type} (host : Host ν) (element : ν) (p : String)
    {whole split : ParsedSheet} {before after : List Rule} {first second : List String}
    {declarations : Declarations}
    (hwhole : whole.rules = before ++ ⟨first ++ second, declarations⟩ :: after)
    (hsplit : split.rules =
      renumber (before ++ ⟨first, declarations⟩ :: ⟨second, declarations⟩ :: after))
    {left right : List Stylesheet} {registry registry' : Registry}
    (hreg : registry.sheets.toList = left ++ whole.merged :: right)
    (hreg' : registry'.sheets.toList = left ++ split.merged :: right) :
    (cascadeWinner (registry.candidates (host.matchesText element)) p).map (·.placedAt 0) =
      (cascadeWinner (registry'.candidates (host.matchesText element)) p).map (·.placedAt 0) := by
  let isMatch := host.matchesText element
  obtain ⟨others, others', haround, hcontenders⟩ := Registry.exists_around left right isMatch p
  have hdeclared := declared_split before after first second declarations
  rw [← hwhole] at hdeclared
  have hsheet := best_contenders_split hsplit hdeclared isMatch p left.length
  have hbest := haround.best_split (fun c ↦ Stylesheet.sheetIndex_of_mem_contenders) hsheet
  rw [← hcontenders hreg, ← hcontenders hreg'] at hbest
  rw [cascadeWinner_eq_best, cascadeWinner_eq_best, hbest, Option.map_map, Option.map_map,
    Option.map_map]
  exact congrArg (Option.map · _) (funext (Contender.placedAt_collapseAt _ _ 0))

/-- The second part of the split rule has the selectors of the next rule, and is merged with it. The
winner then has another place, and is otherwise the same. -/
theorem cascadeWinner_split_merged :
    let lime : Css.StyleRule := ⟨[".b"], [⟨"color", "lime", false⟩], 0⟩
    let red := fun selectors ↦ Css.StyleRule.mk selectors [⟨"color", "red", false⟩] 0
    let whole := ParsedSheet.ofStyleRules "split" "" [red [".a", ".b"], lime] [] (by decide)
    let split := ParsedSheet.ofStyleRules "split" "" [red [".a"], red [".b"], lime] [] (by decide)
    let registry := fun (parsed : ParsedSheet) ↦
      ((Registry.empty.push mergedAcross.merged).push parsed.merged).push singleRule.merged
    let host : Host Unit := ⟨fun _ ↦ true, fun _ s ↦ s = ".a" ∨ s = ".b", fun _ ↦ ""⟩
    let winner := fun parsed p ↦ cascadeWinner ((registry parsed).candidates (host.matchesText ())) p
    whole.merged.size = 2 ∧ split.merged.size = 2 ∧
      winner whole "color" = some ⟨"color", "lime", "lime", false, 1⟩ ∧
      winner split "color" = some ⟨"color", "lime", "lime", false, 2⟩ ∧
      ∀ p, (winner whole p).map (·.placedAt 0) = (winner split p).map (·.placedAt 0) := by
  intro lime red whole split registry host winner
  let declarations : Declarations := ⟨[⟨"color", "red", "red", false, 0⟩]⟩
  let after : List Rule := [⟨[".b"], ⟨[⟨"color", "lime", "lime", false, 1⟩]⟩⟩]
  have hwhole : whole.rules = [] ++ ⟨[".a"] ++ [".b"], declarations⟩ :: after := by
    decide +kernel
  have hsplit : split.rules =
      renumber ([] ++ ⟨[".a"], declarations⟩ :: ⟨[".b"], declarations⟩ :: after) := by
    decide +kernel
  have hregistry : ∀ parsed, (registry parsed).sheets.toList =
      [mergedAcross.merged] ++ parsed.merged :: [singleRule.merged] := fun _ ↦ rfl
  refine ⟨by decide +kernel, by decide +kernel, by decide +kernel, by decide +kernel, ?_⟩
  exact fun p ↦ cascadeWinner_split host () p hwhole hsplit (hregistry whole) (hregistry split)

end StyleCheck.Style
