import StyleCheck.Proofs.Style.History
import StyleCheck.Proofs.Style.PropertyName

/-!
# Names with humps

The two spellings of a property's name against each other: segments between hyphens, and segments
that begin with a capital. Both come to the first spelling, so an expectation lists a property once
however it is spelled. Main statement: this, and what an expectation holds after any number of
insertions.
-/

namespace StyleCheck.Style

/-- The name without its hyphens; the letter behind a hyphen becomes a capital. -/
def camel : List Char → List Char
  | [] => []
  | ['-'] => []
  | '-' :: c :: rest => c.toUpper :: camel rest
  | c :: rest => c :: camel rest

/-- A small letter, and small letters and digits behind it. -/
structure Segment where
  initial : Char
  rest : List Char
  isLower_initial : initial.isLower
  lower_or_digit : ∀ c ∈ rest, c.isLower ∨ c.isDigit

/-- Segments with a hyphen between any two, and perhaps one hyphen in front. -/
structure Kebab where
  leading : Bool
  first : Segment
  others : List Segment

namespace Segment

/-- The segment as it stands behind a hyphen. -/
def chars (s : Segment) : List Char := s.initial :: s.rest

/-- The segment with a capital. -/
def hump (s : Segment) : List Char := s.initial.toUpper :: s.rest

end Segment

/-- The name in hyphens. -/
def Kebab.chars (k : Kebab) : List Char :=
  (if k.leading then ['-'] else []) ++ k.first.chars ++ k.others.flatMap fun s ↦ '-' :: s.chars

variable {c : Char} {name rest : List Char}

/-! ### Hyphens and capitals -/

theorem hyphenate_append (name rest : List Char) :
    hyphenate (name ++ rest) = hyphenate name ++ hyphenate rest := by
  fun_induction hyphenate name with
  | case1 => rfl
  | case2 c name hc ih =>
    rw [List.cons_append, hyphenate, if_pos hc, ih, List.cons_append, List.cons_append]
  | case3 c name hc ih => rw [List.cons_append, hyphenate, if_neg hc, ih, List.cons_append]

theorem hyphenate_of_not_isUpper (h : ∀ c ∈ name, ¬ c.isUpper) : hyphenate name = name := by
  induction name with
  | nil => rfl
  | cons c name ih =>
    obtain ⟨hc, hname⟩ := List.forall_mem_cons.mp h
    rw [hyphenate, if_neg hc, ih hname]

theorem camel_append (h : '-' ∉ name) : camel (name ++ rest) = name ++ camel rest := by
  induction name with
  | nil => rfl
  | cons c name ih =>
    obtain ⟨hc, hname⟩ := List.ne_and_not_mem_of_not_mem_cons h
    rw [List.cons_append, camel.eq_4 _ _ (fun h _ ↦ hc h.symm) (fun _ _ h ↦ absurd h.symm hc),
      ih hname, List.cons_append]

theorem isLower_iff : c.isLower ↔ 97 ≤ c.toNat ∧ c.toNat ≤ 122 := by
  show (97 ≤ c.val && c.val ≤ 122) = true ↔ _
  simp only [Bool.and_eq_true, decide_eq_true_eq, UInt32.le_iff_toNat_le]
  rfl

/-- The capital of a small letter stands 32 places before it. -/
theorem toNat_toUpper (h : c.isLower) : c.toUpper.toNat + 32 = c.toNat := by
  have hsmall : 'a'.val ≤ c.val ∧ c.val ≤ 'z'.val :=
    (Bool.and_eq_true_iff.mp h).imp of_decide_eq_true of_decide_eq_true
  have hval : c.toUpper.val = c.val + ('A'.val - 'a'.val) := by
    delta Char.toUpper
    rw [dif_pos hsmall]
  have hwraps : ('A'.val - 'a'.val).toNat = 2 ^ 32 - 32 := by decide +kernel
  have hplace : c.val.toNat = c.toNat := rfl
  rw [isLower_iff] at h
  show c.toUpper.val.toNat + 32 = c.toNat
  rw [hval, UInt32.toNat_add, hwraps, hplace]
  omega

theorem isAlphanum_iff : c.isAlphanum ↔ c.isUpper ∨ c.isLower ∨ c.isDigit := by
  show (c.isUpper || c.isLower || c.isDigit) = true ↔ _
  rw [Bool.or_eq_true, Bool.or_eq_true, or_assoc]

theorem isUpper_toUpper (h : c.isLower) : c.toUpper.isUpper := by
  have hplace := toNat_toUpper h
  rw [isLower_iff] at h
  rw [isUpper_iff]
  omega

theorem toLower_toUpper (h : c.isLower) : c.toUpper.toLower = c := by
  apply Char.toNat_inj.mp
  rw [toNat_toLower (isUpper_toUpper h), toNat_toUpper h]

namespace Segment

variable (s : Segment)

theorem lower_or_digit_chars : ∀ c ∈ s.chars, c.isLower ∨ c.isDigit :=
  List.forall_mem_cons.mpr ⟨.inl s.isLower_initial, s.lower_or_digit⟩

theorem isAlphanum_chars : ∀ c ∈ s.chars, c.isAlphanum := by
  intro c hc
  rw [isAlphanum_iff]
  exact .inr (s.lower_or_digit_chars c hc)

theorem isAlphanum_hump : ∀ c ∈ s.hump, c.isAlphanum := by
  refine List.forall_mem_cons.mpr ⟨?_, fun c hc ↦ ?_⟩
  · rw [isAlphanum_iff]
    exact .inl (isUpper_toUpper s.isLower_initial)
  · exact s.isAlphanum_chars c (List.mem_cons_of_mem _ hc)

theorem not_isUpper_chars : ∀ c ∈ s.chars, ¬ c.isUpper := by
  intro c hc
  rcases s.lower_or_digit_chars c hc with h | h
  · rw [isLower_iff] at h
    rw [isUpper_iff]
    omega
  · rw [Selector.Grammar.isDigit_iff] at h
    rw [isUpper_iff]
    omega

theorem hyphenate_hump : hyphenate s.hump = '-' :: s.chars := by
  have hrest : hyphenate s.rest = s.rest :=
    hyphenate_of_not_isUpper fun c hc ↦ s.not_isUpper_chars c (List.mem_cons_of_mem _ hc)
  have hinitial : s.initial.toUpper.toLower = s.initial := toLower_toUpper s.isLower_initial
  rw [hump, hyphenate, if_pos (isUpper_toUpper s.isLower_initial), hrest, hinitial, chars]

end Segment

theorem markVendor_eq (name : List Char) :
    markVendor name = if ['m', 's', '-'] <+: name then '-' :: name else name := by
  fun_cases markVendor name with
  | case1 rest => rw [if_pos ⟨rest, rfl⟩]
  | case2 _ hname =>
    rw [if_neg]
    rintro ⟨rest, rfl⟩
    exact hname rest rfl

private theorem hyphen_not_mem (h : ∀ c ∈ name, c.isAlphanum) : '-' ∉ name :=
  fun hmem ↦ absurd (h '-' hmem) (by decide)

namespace Kebab

variable (k : Kebab)

/-- The name with humps, segment by segment. -/
def humps : List Char :=
  (if k.leading then k.first.hump else k.first.chars) ++ k.others.flatMap Segment.hump

private theorem camel_hyphen (s : Segment) (rest : List Char) :
    camel ('-' :: (s.chars ++ rest)) = s.hump ++ camel rest := by
  have hrest : '-' ∉ s.rest :=
    hyphen_not_mem fun c hc ↦ s.isAlphanum_chars c (List.mem_cons_of_mem _ hc)
  rw [Segment.chars, List.cons_append, camel, camel_append hrest]
  rfl

theorem camel_chars : camel k.chars = k.humps := by
  have hothers : camel (k.others.flatMap fun s ↦ '-' :: s.chars) =
      k.others.flatMap Segment.hump := by
    induction k.others with
    | nil => rfl
    | cons s others ih =>
      rw [List.flatMap_cons, List.flatMap_cons, List.cons_append, camel_hyphen, ih]
  unfold chars humps
  split
  · rw [List.append_assoc, List.singleton_append, camel_hyphen, hothers]
  · rw [List.nil_append, camel_append (hyphen_not_mem k.first.isAlphanum_chars), hothers]

theorem hyphenate_humps : hyphenate k.humps = k.chars := by
  have hothers : hyphenate (k.others.flatMap Segment.hump) =
      k.others.flatMap fun s ↦ '-' :: s.chars := by
    induction k.others with
    | nil => rfl
    | cons s others ih =>
      rw [List.flatMap_cons, List.flatMap_cons, hyphenate_append, Segment.hyphenate_hump, ih]
  unfold chars humps
  rw [hyphenate_append, hothers]
  split
  · rw [Segment.hyphenate_hump, List.singleton_append]
  · rw [hyphenate_of_not_isUpper k.first.not_isUpper_chars, List.nil_append]

theorem isAlphanum_humps : ∀ c ∈ k.humps, c.isAlphanum := by
  intro c hc
  rcases List.mem_append.mp hc with hc | hc
  · split at hc
    · exact k.first.isAlphanum_hump c hc
    · exact k.first.isAlphanum_chars c hc
  · obtain ⟨s, -, hc⟩ := List.mem_flatMap.mp hc
    exact s.isAlphanum_hump c hc

private theorem hyphen_not_mem_humps : '-' ∉ k.humps := hyphen_not_mem k.isAlphanum_humps

/-- Where there is no capital, nothing tells the two spellings apart. -/
private theorem chars_eq_humps (h : ∀ c ∈ k.humps, ¬ c.isUpper) : k.chars = k.humps := by
  rw [← k.hyphenate_humps, hyphenate_of_not_isUpper h]

/-- What becomes of a name with humps. -/
theorem hyphenated_camel : hyphenated (camel k.chars) =
    if k.chars = "css-float".toList then "float".toList
    else if ['m', 's', '-'] <+: k.chars then '-' :: k.chars else k.chars := by
  have hcustom : ['-', '-'].isPrefixOf k.humps = false := by
    rw [← Bool.not_eq_true, List.isPrefixOf_iff_prefix]
    exact fun h ↦ k.hyphen_not_mem_humps (h.subset List.mem_cons_self)
  rw [camel_chars, hyphenated, hcustom, Bool.false_or]
  by_cases hupper : k.humps.any Char.isUpper
  · rw [hupper, Bool.not_true, if_neg Bool.false_ne_true, hyphenate_humps, markVendor_eq]
    by_cases hfloat : k.chars = "css-float".toList
    · have hhumps : k.humps = "cssFloat".toList := by
        rw [← camel_chars, hfloat]
        decide
      rw [if_pos hhumps, if_pos hfloat]
    · have hhumps : k.humps ≠ "cssFloat".toList := by
        intro h
        apply hfloat
        rw [← hyphenate_humps, h]
        decide
      rw [if_neg hhumps, if_neg hfloat]
  · have hsame := k.chars_eq_humps fun c hc hcapital ↦
      hupper (List.any_eq_true.mpr ⟨c, hc, hcapital⟩)
    have hhyphen : '-' ∉ k.chars := hsame ▸ k.hyphen_not_mem_humps
    have hfloat : k.chars ≠ "css-float".toList := by
      intro h
      rw [h] at hhyphen
      exact hhyphen (by decide)
    have hvendor : ¬ ['m', 's', '-'] <+: k.chars := fun h ↦ hhyphen (h.subset (by simp))
    rw [eq_false_of_ne_true hupper, Bool.not_false, if_pos rfl, if_neg hfloat,
      if_neg hvendor, hsame]

end Kebab

/-! ### Either spelling -/

private theorem not_isSpace_of_isAlphanum (h : c.isAlphanum) : ¬ Text.isSpace c := by
  intro hspace
  have hn := Selector.Grammar.toNat_of_isSpace hspace
  rw [Char.isAlphanum, Bool.or_eq_true, Selector.Grammar.isAlpha_iff,
    Selector.Grammar.isDigit_iff] at h
  omega

theorem propertyName_camel (k : Kebab) : propertyName (String.ofList (camel k.chars)) =
    if k.chars = "css-float".toList then "float"
    else if ['m', 's', '-'] <+: k.chars then "-" ++ String.ofList k.chars
    else String.ofList k.chars := by
  have htrim : Text.trimChars (camel k.chars) = camel k.chars := by
    rw [Kebab.camel_chars]
    exact trimChars_of_forall_not fun c hc ↦ not_isSpace_of_isAlphanum (k.isAlphanum_humps c hc)
  rw [propertyName, String.toList_ofList, htrim, Kebab.hyphenated_camel]
  split
  · exact String.ofList_toList
  · split
    · show String.ofList (['-'] ++ k.chars) = _
      rw [String.ofList_append]
    · rfl

/-- To expect something of a name and of the name in hyphens is to expect it of one property. -/
theorem Expectation.insert_insert (e : Expectation) {name other : String}
    (h : propertyName other = propertyName name) (v w : ExpectedValue) :
    (e.insert name v).insert other w = e.insert name w := by
  rw [insert, insert, insert, h, put_put]

/-- Taken once or twice, the name of a property is the same. The name with humps that a name in
hyphens has comes back to it, but for `cssFloat` and the vendor mark `ms`, and the two spellings
share one entry of an expectation. So after any insertions an expectation lists every property once,
in the order in which they were first named, with its last value, and is the expectation of its own
entries. -/
theorem ofList_either_spelling (inserts : List (String × ExpectedValue)) :
    (∀ name, propertyName (propertyName name) = propertyName name) ∧
      (∀ k : Kebab, propertyName (String.ofList (camel k.chars)) =
        if k.chars = "css-float".toList then "float"
        else if ['m', 's', '-'] <+: k.chars then "-" ++ String.ofList k.chars
        else String.ofList k.chars) ∧
      (∀ (e : Expectation) name v w,
        (e.insert name v).insert (propertyName name) w = e.insert name w ∧
          (e.insert (propertyName name) v).insert name w = e.insert name w) ∧
      let e := Expectation.ofList inserts
      e.entries.map Prod.fst = (inserts.map fun i ↦ propertyName i.1).eraseDups ∧
        (e.entries.map Prod.fst).Nodup ∧
        (∀ p, e.entries.lookup p =
          (inserts.filter fun i ↦ propertyName i.1 == p).getLast?.map Prod.snd) ∧
        Expectation.ofList e.entries = e := by
  refine ⟨propertyName_propertyName, propertyName_camel, fun e name v w ↦ ⟨?_, ?_⟩,
    Expectation.map_fst_ofList inserts, Expectation.distinct_ofList inserts,
    Expectation.lookup_ofList inserts, ?_⟩
  · exact e.insert_insert (propertyName_propertyName name) v w
  · rw [e.insert_insert (propertyName_propertyName name).symm, Expectation.insert,
      propertyName_propertyName, Expectation.insert]
  · exact (Expectation.distinct_ofList inserts).ofList_entries fun _ ↦
      Expectation.propertyName_of_mem_ofList

example : propertyName "msTransform" = "-ms-transform" := by decide +kernel

end StyleCheck.Style
