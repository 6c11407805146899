import StyleCheck.Text.Space

/-!
# Scanner

A reading position in the text of a style sheet. It knows strings, comments, groups and blocks and
nothing else, so it can find the pieces of a sheet as they were written. Places count bytes.
-/

namespace StyleCheck.Style

/-- The place of the next character and the text from there on. -/
structure Scanner where
  place : Nat
  rest : List Char
  deriving DecidableEq, Repr

namespace Scanner

/-- A scanner before the first character. -/
def ofChars (text : List Char) : Scanner := ⟨0, text⟩

/-- The longest run of leading characters that fits into `n` bytes. -/
def takeBytes : Nat → List Char → List Char
  | _, [] => []
  | n, c :: cs => if c.utf8Size ≤ n then c :: takeBytes (n - c.utf8Size) cs else []

/-- The text between the scanner and a later place. -/
def upTo (s : Scanner) (place : Nat) : List Char := takeBytes (place - s.place) s.rest

/-- The scanner past the next character. -/
def bump (s : Scanner) : Scanner :=
  match s.rest with
  | [] => s
  | c :: rest => ⟨s.place + c.utf8Size, rest⟩

/-- Past the next `*/`, or at the end of the text. -/
def closeComment (place : Nat) : List Char → Scanner
  | [] => ⟨place, []⟩
  | '*' :: '/' :: rest => ⟨place + 2, rest⟩
  | c :: rest => closeComment (place + c.utf8Size) rest

/-- Past a comment whose `/` has been read; the scanner stands at its `*`. -/
def skipComment (s : Scanner) : Scanner := closeComment s.bump.place s.bump.rest

/-- Past the next `quote` that no backslash precedes, or at the end of the text. -/
def closeString (quote : Char) (place : Nat) : List Char → Scanner
  | [] => ⟨place, []⟩
  | '\\' :: [] => ⟨place + 1, []⟩
  | '\\' :: c :: rest => closeString quote (place + 1 + c.utf8Size) rest
  | c :: rest =>
    if c = quote then ⟨place + c.utf8Size, rest⟩
    else closeString quote (place + c.utf8Size) rest

/-- Past a string whose opening quote has been read. -/
def skipString (s : Scanner) (quote : Char) : Scanner := closeString quote s.place s.rest

theorem length_bump_le (s : Scanner) : s.bump.rest.length ≤ s.rest.length := by
  unfold bump; split <;> simp_all

theorem length_closeComment_le (place : Nat) (text : List Char) :
    (closeComment place text).rest.length ≤ text.length := by
  fun_induction closeComment place text <;> simp_all <;> omega

theorem length_skipComment_le (s : Scanner) : s.skipComment.rest.length ≤ s.rest.length :=
  Nat.le_trans (length_closeComment_le _ _) (length_bump_le s)

theorem length_closeString_le (quote : Char) (place : Nat) (text : List Char) :
    (closeString quote place text).rest.length ≤ text.length := by
  fun_induction closeString quote place text <;> simp_all <;> omega

theorem length_skipString_le (s : Scanner) (quote : Char) :
    (s.skipString quote).rest.length ≤ s.rest.length :=
  length_closeString_le _ _ _

/-- Whether a comment opens with the character `c` read last. -/
def opensComment (c : Char) (rest : List Char) : Bool := c == '/' && rest.head? == some '*'

/-- Whether a character opens and closes strings. -/
def isQuote (c : Char) : Bool := c == '"' || c == '\''

/-- Past whitespace and comments. -/
def skipTrivia (s : Scanner) : Scanner :=
  match _h : s.rest with
  | [] => s
  | c :: rest =>
    if Text.isSpace c then skipTrivia ⟨s.place + c.utf8Size, rest⟩
    else if opensComment c rest then skipTrivia (skipComment ⟨s.place + 1, rest⟩)
    else s
termination_by s.rest.length
decreasing_by
  · rw [_h]; exact Nat.lt_succ_self _
  · rw [_h]; exact Nat.lt_succ_of_le (length_skipComment_le _)

/-- Past the first of `stops` outside strings, comments and groups, which is named; `depth` groups
are open. -/
def findTopLevel (stops : List Char) (depth : Nat) (s : Scanner) : Option Char × Scanner :=
  match _h : s.rest with
  | [] => (none, s)
  | c :: rest =>
    let past : Scanner := ⟨s.place + c.utf8Size, rest⟩
    if opensComment c rest then findTopLevel stops depth past.skipComment
    else if isQuote c then findTopLevel stops depth (past.skipString c)
    else if c = '(' ∨ c = '[' then findTopLevel stops (depth + 1) past
    else if c = ')' ∨ c = ']' then findTopLevel stops (depth - 1) past
    else if depth = 0 ∧ c ∈ stops then (some c, past)
    else findTopLevel stops depth past
termination_by s.rest.length
decreasing_by
  · rw [_h]; exact Nat.lt_succ_of_le (length_skipComment_le _)
  · rw [_h]; exact Nat.lt_succ_of_le (length_skipString_le _ _)
  · rw [_h]; exact Nat.lt_succ_self _
  · rw [_h]; exact Nat.lt_succ_self _
  · rw [_h]; exact Nat.lt_succ_self _

/-- Past the `}` that closes the last of `depth` open blocks, or at the end of the text; with the
place of that `}` or of the end. -/
def closeBlock (depth : Nat) (s : Scanner) : Nat × Scanner :=
  match _h : s.rest with
  | [] => (s.place, s)
  | c :: rest =>
    let past : Scanner := ⟨s.place + c.utf8Size, rest⟩
    if opensComment c rest then closeBlock depth past.skipComment
    else if isQuote c then closeBlock depth (past.skipString c)
    else if c = '\x7b' then closeBlock (depth + 1) past
    else if c = '\x7d' then if depth ≤ 1 then (s.place, past) else closeBlock (depth - 1) past
    else closeBlock depth past
termination_by s.rest.length
decreasing_by
  · rw [_h]; exact Nat.lt_succ_of_le (length_skipComment_le _)
  · rw [_h]; exact Nat.lt_succ_of_le (length_skipString_le _ _)
  · rw [_h]; exact Nat.lt_succ_self _
  · rw [_h]; exact Nat.lt_succ_self _
  · rw [_h]; exact Nat.lt_succ_self _

/-- Past a block whose opening brace has been read, with the place where its body ends. -/
def skipBlock (s : Scanner) : Nat × Scanner := closeBlock 1 s

theorem length_skipTrivia_le (s : Scanner) : s.skipTrivia.rest.length ≤ s.rest.length := by
  fun_induction skipTrivia s with
  | case1 => exact Nat.le_refl _
  | case2 s c rest h _ ih => rw [h]; exact Nat.le_succ_of_le ih
  | case3 s c rest h _ _ ih =>
    rw [h]; exact Nat.le_succ_of_le (Nat.le_trans ih (length_skipComment_le _))
  | case4 => exact Nat.le_refl _

theorem length_findTopLevel_lt {stops : List Char} {depth : Nat} {s past : Scanner} {c : Char}
    (h : findTopLevel stops depth s = (some c, past)) : past.rest.length < s.rest.length := by
  fun_induction findTopLevel stops depth s with
  | case1 => simp at h
  | case2 depth s d rest hs here _ ih =>
    have := length_skipComment_le here
    have := ih h; simp only [hs, List.length_cons]; simp only [here] at *; omega
  | case3 depth s d rest hs here _ _ ih =>
    have := length_skipString_le here d
    have := ih h; simp only [hs, List.length_cons]; simp only [here] at *; omega
  | case4 depth s d rest hs here _ _ _ ih =>
    have := ih h; simp only [hs, List.length_cons]; simp only [here] at *; omega
  | case5 depth s d rest hs here _ _ _ _ ih =>
    have := ih h; simp only [hs, List.length_cons]; simp only [here] at *; omega
  | case6 depth s d rest hs here =>
    simp only [Prod.mk.injEq] at h
    obtain ⟨-, rfl⟩ := h
    simp [hs, here]
  | case7 depth s d rest hs here _ _ _ _ _ ih =>
    have := ih h; simp only [hs, List.length_cons]; simp only [here] at *; omega

theorem length_closeBlock_le (depth : Nat) (s : Scanner) :
    (closeBlock depth s).2.rest.length ≤ s.rest.length := by
  fun_induction closeBlock depth s with
  | case1 => exact Nat.le_refl _
  | case2 depth s d rest hs here _ ih =>
    have := length_skipComment_le here
    simp only [hs, List.length_cons]; simp only [here] at *; omega
  | case3 depth s d rest hs here _ _ ih =>
    have := length_skipString_le here d
    simp only [hs, List.length_cons]; simp only [here] at *; omega
  | case4 depth s rest hs here _ _ ih =>
    simp only [hs, List.length_cons]; simp only [here] at *; omega
  | case5 depth s rest _ hs here => simp [hs, here]
  | case6 depth s rest _ hs here _ _ _ ih =>
    simp only [hs, List.length_cons]; simp only [here] at *; omega
  | case7 depth s d rest hs here _ _ _ _ ih =>
    simp only [hs, List.length_cons]; simp only [here] at *; omega

theorem length_skipBlock_le (s : Scanner) : s.skipBlock.2.rest.length ≤ s.rest.length :=
  length_closeBlock_le 1 s

end Scanner

end StyleCheck.Style
