import StyleCheck.Proofs.Style.Scanning

/-!
# Places that a scanner reaches

Every operation of a scanner goes forward in one text. Main statements: where the searches for a
stop and for the end of a block come to an end, and how the bodies of style rules lie in a text.
-/

namespace StyleCheck.Style

open Text

namespace Scanner

variable {s s' s'' : Scanner} {c : Char} {text rest stops : List Char} {depth place : Nat}

/-- The second scanner is at the same place of the same text as the first, or further on. -/
def Reaches (s s' : Scanner) : Prop :=
  ∃ cs, s.rest = cs ++ s'.rest ∧ s'.place = s.place + byteLength cs

theorem Reaches.refl (s : Scanner) : s.Reaches s := ⟨[], rfl, rfl⟩

theorem Reaches.trans (h : s.Reaches s') (h' : s'.Reaches s'') : s.Reaches s'' := by
  obtain ⟨cs, hrest, hplace⟩ := h
  obtain ⟨ds, hrest', hplace'⟩ := h'
  refine ⟨cs ++ ds, ?_, ?_⟩
  · rw [hrest, hrest', List.append_assoc]
  · rw [hplace', hplace, byteLength_append, Nat.add_assoc]

theorem Reaches.place_le (h : s.Reaches s') : s.place ≤ s'.place := by
  obtain ⟨cs, -, hplace⟩ := h
  exact hplace ▸ Nat.le_add_right _ _

theorem Reaches.length_le (h : s.Reaches s') : s'.rest.length ≤ s.rest.length := by
  obtain ⟨cs, hrest, -⟩ := h
  rw [hrest, List.length_append]
  exact Nat.le_add_left _ _

/-- What a scanner cuts out up to a place that it reaches is the text in between. -/
theorem Reaches.upTo (h : s.Reaches s') :
    s.rest = s.upTo s'.place ++ s'.rest ∧
      s'.place = s.place + byteLength (s.upTo s'.place) := by
  obtain ⟨cs, hrest, hplace⟩ := h
  have hupTo : s.upTo s'.place = cs := by
    have h := upTo_append s.place cs s'.rest
    rwa [← hrest, ← hplace] at h
  rw [hupTo]
  exact ⟨hrest, hplace⟩

theorem Reaches.byteLength_eq (h : (ofChars text).Reaches s) :
    byteLength text = s.place + byteLength s.rest := by
  obtain ⟨before, htext, hplace⟩ := h
  have htext : text = before ++ s.rest := htext
  have hplace : s.place = byteLength before := hplace.trans (Nat.zero_add _)
  rw [htext, byteLength_append, hplace]

/-! ### Operations -/

theorem reaches_past (h : s.rest = c :: rest) : s.Reaches ⟨s.place + c.utf8Size, rest⟩ :=
  ⟨[c], h, rfl⟩

/-- Behind the next character there is less text. -/
theorem length_lt_of_past (h : s.rest = c :: rest)
    (hpast : Reaches ⟨s.place + c.utf8Size, rest⟩ s') : s'.rest.length < s.rest.length := by
  rw [h]
  exact Nat.lt_succ_of_le hpast.length_le

theorem reaches_end (s : Scanner) : s.Reaches ⟨s.place + byteLength s.rest, []⟩ :=
  ⟨s.rest, (List.append_nil _).symm, rfl⟩

theorem upTo_end (s : Scanner) : s.upTo (s.place + byteLength s.rest) = s.rest := by
  have h := (reaches_end s).upTo.1
  rw [List.append_nil] at h
  exact h.symm

theorem reaches_bump (s : Scanner) : s.Reaches s.bump := by
  unfold bump
  split
  · exact .refl s
  · next h => exact reaches_past h

theorem reaches_closeComment (place : Nat) (text : List Char) :
    Reaches ⟨place, text⟩ (closeComment place text) := by
  fun_induction closeComment place text with
  | case1 place => exact .refl _
  | case2 place rest => exact ⟨['*', '/'], rfl, rfl⟩
  | case3 place c rest _ ih => exact (reaches_past rfl).trans ih

theorem reaches_skipComment (s : Scanner) : s.Reaches s.skipComment :=
  (reaches_bump s).trans (reaches_closeComment _ _)

theorem reaches_closeString (quote : Char) (place : Nat) (text : List Char) :
    Reaches ⟨place, text⟩ (closeString quote place text) := by
  fun_induction closeString quote place text with
  | case1 place => exact .refl _
  | case2 place => exact ⟨['\\'], rfl, rfl⟩
  | case3 place c rest ih => exact .trans ⟨['\\', c], rfl, Nat.add_assoc _ _ _⟩ ih
  | case4 place rest _ _ => exact reaches_past rfl
  | case5 place c rest _ _ _ ih => exact (reaches_past rfl).trans ih

theorem reaches_skipString (s : Scanner) (quote : Char) : s.Reaches (s.skipString quote) :=
  reaches_closeString quote _ _

/-- Past a comment, from its `/` on. -/
theorem reaches_pastComment (h : s.rest = c :: rest) :
    s.Reaches (skipComment ⟨s.place + c.utf8Size, rest⟩) :=
  (reaches_past h).trans (reaches_skipComment _)

/-- Past a string, from its opening quote on. -/
theorem reaches_pastString (h : s.rest = c :: rest) :
    s.Reaches (skipString ⟨s.place + c.utf8Size, rest⟩ c) :=
  (reaches_past h).trans (reaches_skipString _ c)

theorem reaches_skipTrivia (s : Scanner) : s.Reaches s.skipTrivia := by
  fun_induction skipTrivia s with
  | case1 s => exact .refl s
  | case2 s c rest h _ ih => exact (reaches_past h).trans ih
  | case3 s c rest h _ hopens ih =>
    obtain ⟨rfl, -⟩ := opensComment_iff.mp hopens
    exact (reaches_pastComment h).trans ih
  | case4 s => exact .refl s

/-! ### Searches -/

/-- A search for a stop comes to the end of the text, or past a stop that a place reached is in
front of. -/
inductive Stops (stops : List Char) (s : Scanner) : Option Char × Scanner → Prop
  | nowhere {place : Nat} (h : s.Reaches ⟨place, []⟩) : Stops stops s (none, ⟨place, []⟩)
  | past {c : Char} {place : Nat} {rest : List Char} (mem : c ∈ stops)
      (h : s.Reaches ⟨place, c :: rest⟩) : Stops stops s (some c, ⟨place + c.utf8Size, rest⟩)

theorem Stops.of_reaches {found : Option Char × Scanner} (h : s.Reaches s')
    (hfound : Stops stops s' found) : Stops stops s found := by
  cases hfound with
  | nowhere h' => exact .nowhere (h.trans h')
  | past mem h' => exact .past mem (h.trans h')

theorem Stops.reaches {found : Option Char × Scanner} (h : Stops stops s found) :
    s.Reaches found.2 := by
  cases h with
  | nowhere h => exact h
  | past _ h => exact h.trans (reaches_past rfl)

theorem Stops.place_lt (h : Stops stops s (some c, s')) : s.place < s'.place := by
  cases h with
  | past _ h => exact Nat.lt_of_le_of_lt h.place_le (Nat.lt_add_of_pos_right c.utf8Size_pos)

theorem stops_findTopLevel (stops : List Char) (depth : Nat) (s : Scanner) :
    Stops stops s (s.findTopLevel stops depth) := by
  fun_induction findTopLevel stops depth s with
  | case1 depth s h =>
    obtain ⟨place, rest⟩ := s
    cases h
    exact .nowhere (.refl _)
  | case2 depth s c rest h past _ ih => exact ih.of_reaches (reaches_pastComment h)
  | case3 depth s c rest h past _ _ ih => exact ih.of_reaches (reaches_pastString h)
  | case4 depth s c rest h past _ _ _ ih => exact ih.of_reaches (reaches_past h)
  | case5 depth s c rest h past _ _ _ _ ih => exact ih.of_reaches (reaches_past h)
  | case6 depth s c rest h past _ _ _ _ hstop =>
    refine .past hstop.2 ?_
    rw [← h]
    exact .refl s
  | case7 depth s c rest h past _ _ _ _ _ ih => exact ih.of_reaches (reaches_past h)

/-- Behind the block that a stop opens there is less text. -/
theorem length_skipBlock_lt (h : s.findTopLevel stops depth = (some c, s')) :
    s'.skipBlock.2.rest.length < s.rest.length :=
  Nat.lt_of_le_of_lt (length_skipBlock_le s') (length_findTopLevel_lt h)

/-- A search for the end of a block comes to the end of the text, or past a brace that a place
reached is in front of. The body ends there. -/
inductive Closes (s : Scanner) : Nat × Scanner → Prop
  | nowhere {place : Nat} (h : s.Reaches ⟨place, []⟩) : Closes s (place, ⟨place, []⟩)
  | past {place : Nat} {rest : List Char} (h : s.Reaches ⟨place, '\x7d' :: rest⟩) :
      Closes s (place, ⟨place + 1, rest⟩)

theorem Closes.of_reaches {found : Nat × Scanner} (h : s.Reaches s') (hfound : Closes s' found) :
    Closes s found := by
  cases hfound with
  | nowhere h' => exact .nowhere (h.trans h')
  | past h' => exact .past (h.trans h')

/-- The end of the body lies between its beginning and the place where the scanner goes on. -/
theorem Closes.exists_reaches {found : Nat × Scanner} (h : Closes s found) :
    ∃ rest, s.Reaches ⟨found.1, rest⟩ ∧ Reaches ⟨found.1, rest⟩ found.2 := by
  cases h with
  | nowhere h => exact ⟨[], h, .refl _⟩
  | past h => exact ⟨_, h, ['\x7d'], rfl, rfl⟩

theorem Closes.reaches {found : Nat × Scanner} (h : Closes s found) : s.Reaches found.2 := by
  obtain ⟨rest, hend, hpast⟩ := h.exists_reaches
  exact hend.trans hpast

theorem closes_closeBlock (depth : Nat) (s : Scanner) : Closes s (s.closeBlock depth) := by
  fun_induction closeBlock depth s with
  | case1 depth s h =>
    obtain ⟨place, rest⟩ := s
    cases h
    exact .nowhere (.refl _)
  | case2 depth s c rest h past _ ih => exact ih.of_reaches (reaches_pastComment h)
  | case3 depth s c rest h past _ _ ih => exact ih.of_reaches (reaches_pastString h)
  | case4 depth s rest h past _ _ ih => exact ih.of_reaches (reaches_past h)
  | case5 depth s rest _ h =>
    refine .past ?_
    rw [← h]
    exact .refl s
  | case6 depth s rest _ h past _ _ _ ih => exact ih.of_reaches (reaches_past h)
  | case7 depth s c rest h past _ _ _ _ ih => exact ih.of_reaches (reaches_past h)

theorem closes_skipBlock (s : Scanner) : Closes s s.skipBlock := closes_closeBlock 1 s

end Scanner

/-! ### Bodies -/

namespace Written

open Scanner

variable {s s' : Scanner} {found : List (Nat × List Char)}

/-- Bodies stand in the text behind a scanner, where they say, one after the other and apart. -/
structure Laid (s : Scanner) (found : List (Nat × List Char)) : Prop where
  inside : ∀ b ∈ found, s.place < b.1 ∧ ∃ rest, s.Reaches ⟨b.1, b.2 ++ rest⟩
  apart : found.Pairwise fun b b' ↦ b.1 + byteLength b.2 < b'.1

theorem Laid.nil : Laid s [] := ⟨nofun, .nil⟩

theorem Laid.of_reaches (h : s.Reaches s') (hfound : Laid s' found) : Laid s found where
  inside b hb := by
    obtain ⟨hlt, rest, hrest⟩ := hfound.inside b hb
    exact ⟨Nat.lt_of_le_of_lt h.place_le hlt, rest, h.trans hrest⟩
  apart := hfound.apart

theorem Laid.cons {start : Nat} {body rest : List Char} (hlt : s.place < start)
    (h : s.Reaches ⟨start, body ++ rest⟩)
    (hfound : Laid ⟨start + byteLength body, rest⟩ found) : Laid s ((start, body) :: found) where
  inside := by
    have hbody : Reaches ⟨start, body ++ rest⟩ ⟨start + byteLength body, rest⟩ := ⟨body, rfl, rfl⟩
    exact List.forall_mem_cons.mpr ⟨⟨hlt, rest, h⟩, (hfound.of_reaches (h.trans hbody)).inside⟩
  apart := .cons (fun b hb ↦ (hfound.inside b hb).1) hfound.apart

theorem laid_bodies (s : Scanner) : Laid s (bodies s) := by
  fun_induction bodies s with
  | case1 s start hend => exact .nil
  | case2 s start after past hfind hat => exact .nil
  | case3 s start after past hat hfind ih =>
    have hstops := hfind ▸ stops_findTopLevel [';', '\x7b'] 0 start
    have hpast := (reaches_skipTrivia s).trans hstops.reaches
    exact ih.of_reaches (hpast.trans (closes_skipBlock past).reaches)
  | case4 s start after c past hfind hc hat ih =>
    have hstops := hfind ▸ stops_findTopLevel [';', '\x7b'] 0 start
    exact ih.of_reaches ((reaches_skipTrivia s).trans hstops.reaches)
  | case5 s start c after hat hc past hfind => exact .nil
  | case6 s start c after hat hc stop past hfind block ih =>
    have hstart := reaches_skipTrivia s
    have hstops := hfind ▸ stops_findTopLevel ['\x7b'] 0 start
    obtain ⟨rest, hend, hblock⟩ := (closes_skipBlock past).exists_reaches
    obtain ⟨hrest, hplace⟩ := hend.upTo
    have hlt : start.place < past.place := hstops.place_lt
    have hbody : s.Reaches ⟨past.place, past.upTo block.1 ++ rest⟩ :=
      hrest ▸ hstart.trans hstops.reaches
    exact .cons (Nat.lt_of_le_of_lt hstart.place_le hlt) hbody (hplace ▸ ih.of_reaches hblock)

end Written

end StyleCheck.Style
