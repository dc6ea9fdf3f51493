import Discussion.Text.Digits

/-!
# Texts and line ends

Basic texts stand between quotation marks and know escapes; literal texts stand between apostrophes
and are taken as they are. Three marks at either end make a text that may run over several lines.
-/

namespace Discussion.Toml

open Text

/-- Whether a character is a blank within a line. -/
def isBlank (c : Char) : Bool :=
  c == ' ' || c == '\t'

/-- Passes over blanks within a line. -/
def skipBlanks (s : List Char) : List Char :=
  s.dropWhile isBlank

theorem length_skipBlanks (s : List Char) : (skipBlanks s).length ≤ s.length :=
  length_dropWhile_le _ s

/-- Whether a character may stand in comments and literal texts: no control character but the
tabulator. -/
def isPlain (c : Char) : Bool :=
  c == '\t' || (' ' ≤ c && c ≠ '\x7f')

/-- Reads the end of a line. -/
def readLineFeed : List Char → Option (List Char)
  | '\n' :: s => some s
  | '\r' :: '\n' :: s => some s
  | _ => none

/-- Passes over a comment, if there is one, up to the end of its line. -/
def skipComment : List Char → List Char
  | '#' :: s => s.dropWhile isPlain
  | s => s

theorem length_readLineFeed {s r : List Char} (h : readLineFeed s = some r) :
    r.length < s.length := by
  unfold readLineFeed at h
  split at h
  · simp only [Option.some.injEq] at h
    simp [h]
  · simp only [Option.some.injEq] at h
    simp only [List.length_cons, h]
    omega
  · simp at h

theorem length_skipComment (s : List Char) : (skipComment s).length ≤ s.length := by
  unfold skipComment
  split
  · exact Nat.le_succ_of_le (length_dropWhile_le _ _)
  · exact Nat.le_refl _

/-- Passes over blanks and a comment in the rest of a line. -/
def skipTail (s : List Char) : List Char :=
  skipComment (skipBlanks s)

theorem length_skipTail (s : List Char) : (skipTail s).length ≤ s.length :=
  Nat.le_trans (length_skipComment _) (length_skipBlanks s)

/-- Passes over blanks, comments and line ends. -/
def skipLines (s : List Char) : List Char :=
  match _h : readLineFeed (skipTail s) with
  | some r => skipLines r
  | none => skipTail s
termination_by s.length
decreasing_by exact Nat.lt_of_lt_of_le (length_readLineFeed _h) (length_skipTail s)

theorem length_skipLines (s : List Char) : (skipLines s).length ≤ s.length := by
  fun_induction skipLines s with
  | case1 s r h ih =>
    have := length_readLineFeed h
    have := length_skipTail s
    omega
  | case2 s => exact length_skipTail s

/-! ## Escapes -/

/-- Reads the character that a code of `n` digits in base 16 stands for. -/
def readCode (n : Nat) (s : List Char) : Option (Char × List Char) :=
  match (s.take n).mapM hexValue? with
  | none => none
  | some ds =>
    let code := valueOfDigits 16 ds
    if ds.length = n ∧ code.isValidChar then some (Char.ofNat code, s.drop n) else none

/-- What a single character stands for behind a backslash. -/
def escaped? : Char → Option Char
  | 'b' => some '\x08'
  | 't' => some '\t'
  | 'n' => some '\n'
  | 'f' => some '\x0c'
  | 'r' => some '\r'
  | '"' => some '"'
  | '\\' => some '\\'
  | _ => none

/-- Reads what a backslash introduces. -/
def readEscape : List Char → Option (Char × List Char)
  | [] => none
  | c :: s =>
    if c = 'u' then readCode 4 s
    else if c = 'U' then readCode 8 s
    else (escaped? c).map fun d => (d, s)

/-- Passes over blanks and line ends. -/
def skipEmpty : List Char → List Char
  | [] => []
  | '\r' :: '\n' :: s => skipEmpty s
  | c :: s => if c = '\n' ∨ isBlank c then skipEmpty s else c :: s

/-- Passes over the end of a line that a backslash stands at, and over everything up to the next
character that shows. -/
def readContinuation (s : List Char) : Option (List Char) :=
  (readLineFeed (skipBlanks s)).map skipEmpty

theorem length_readCode {n : Nat} {s r : List Char} {c : Char} (h : readCode n s = some (c, r)) :
    r.length ≤ s.length := by
  unfold readCode at h
  split at h
  · simp at h
  · simp only at h
    split at h
    · simp only [Option.some.injEq, Prod.mk.injEq] at h
      obtain ⟨_, rfl⟩ := h
      simp
    · simp at h

theorem length_readEscape {s r : List Char} {c : Char} (h : readEscape s = some (c, r)) :
    r.length < s.length := by
  cases s with
  | nil => simp [readEscape] at h
  | cons d s =>
    simp only [readEscape] at h
    refine Nat.lt_succ_of_le ?_
    split at h
    · exact length_readCode h
    · split at h
      · exact length_readCode h
      · simp only [Option.map_eq_some_iff, Prod.mk.injEq] at h
        obtain ⟨_, _, _, rfl⟩ := h
        exact Nat.le_refl _

theorem length_skipEmpty (s : List Char) : (skipEmpty s).length ≤ s.length := by
  fun_induction skipEmpty s with
  | case1 => exact Nat.le_refl _
  | case2 s ih =>
    simp only [List.length_cons]
    omega
  | case3 c s _ _ ih => exact Nat.le_succ_of_le ih
  | case4 => exact Nat.le_refl _

theorem length_readContinuation {s r : List Char} (h : readContinuation s = some r) :
    r.length < s.length := by
  simp only [readContinuation, Option.map_eq_some_iff] at h
  obtain ⟨t, h, rfl⟩ := h
  have := length_readLineFeed h
  have := length_skipBlanks s
  have := length_skipEmpty t
  omega

/-! ## Texts -/

/-- Reads the rest of a basic text on one line. The characters read are put in front of `acc`, the last
one foremost. -/
def readBasic (acc : List Char) : List Char → Option (List Char × List Char)
  | [] => none
  | c :: s =>
    if c = '"' then some (acc.reverse, s)
    else if c = '\\' then
      match _h : readEscape s with
      | none => none
      | some (d, r) => readBasic (d :: acc) r
    else if isPlain c then readBasic (c :: acc) s
    else none
termination_by s => s.length
decreasing_by
  · exact Nat.lt_succ_of_lt (length_readEscape _h)
  · exact Nat.lt_succ_self _

/-- Whether a character may stand in a literal text on one line. -/
def isLiteral (c : Char) : Bool :=
  isPlain c && c ≠ '\''

/-- Reads the rest of a literal text on one line. -/
def readLiteral (s : List Char) : Option (List Char × List Char) :=
  match s.dropWhile isLiteral with
  | '\'' :: r => some (s.takeWhile isLiteral, r)
  | _ => none

/-- Reads the rest of a text that may run over several lines, up to three marks. Up to two more marks
that follow belong to the text. Only texts between quotation marks know escapes. -/
def readLong (mark : Char) (acc : List Char) : List Char → Option (List Char × List Char)
  | [] => none
  | c :: s =>
    if c = mark then
      if s.take 2 = [mark, mark] then
        let more := ((s.drop 2).take 2).takeWhile (· == mark)
        some (acc.reverse ++ more, s.drop (2 + more.length))
      else readLong mark (c :: acc) s
    else if c = '\\' ∧ mark = '"' then
      match _h : readContinuation s with
      | some r => readLong mark acc r
      | none =>
        match _g : readEscape s with
        | none => none
        | some (d, r) => readLong mark (d :: acc) r
    else
      match _h : readLineFeed (c :: s) with
      | some r => readLong mark ('\n' :: acc) r
      | none => if isPlain c then readLong mark (c :: acc) s else none
termination_by s => s.length
decreasing_by
  · exact Nat.lt_succ_self _
  · exact Nat.lt_succ_of_lt (length_readContinuation _h)
  · exact Nat.lt_succ_of_lt (length_readEscape _g)
  · exact length_readLineFeed _h
  · exact Nat.lt_succ_self _

/-- Passes over a line end right behind the opening marks. -/
def skipFirstLineFeed (s : List Char) : List Char :=
  (readLineFeed s).getD s

/-- Reads a text on one line that begins with `mark`. -/
def readShort (mark : Char) (s : List Char) : Option (List Char × List Char) :=
  if mark = '"' then readBasic [] s else readLiteral s

/-- Reads a text behind its first mark. -/
def readText (mark : Char) (s : List Char) : Option (String × List Char) :=
  (if s.take 2 = [mark, mark] then readLong mark [] (skipFirstLineFeed (s.drop 2))
    else readShort mark s).map fun (cs, r) => (String.ofList cs, r)

theorem length_readBasic {acc s cs r : List Char} (h : readBasic acc s = some (cs, r)) :
    r.length < s.length := by
  fun_induction readBasic acc s with
  | case1 => simp at h
  | case2 acc s =>
    simp only [Option.some.injEq, Prod.mk.injEq] at h
    simp [h.2]
  | case3 => simp at h
  | case4 acc s d r' h₁ _ ih =>
    have := length_readEscape h₁
    have := ih h
    simp only [List.length_cons]
    omega
  | case5 acc c s _ _ _ ih => exact Nat.lt_succ_of_lt (ih h)
  | case6 => simp at h

theorem length_readLiteral {s cs r : List Char} (h : readLiteral s = some (cs, r)) :
    r.length < s.length := by
  have hs := length_dropWhile_le isLiteral s
  unfold readLiteral at h
  split at h
  · next hr =>
    rw [hr, List.length_cons] at hs
    simp only [Option.some.injEq, Prod.mk.injEq] at h
    exact h.2 ▸ hs
  · simp at h

theorem length_readLong {mark : Char} {acc s cs r : List Char}
    (h : readLong mark acc s = some (cs, r)) : r.length < s.length := by
  fun_induction readLong mark acc s with
  | case1 => simp at h
  | case2 acc s c more =>
    simp only [Option.some.injEq, Prod.mk.injEq] at h
    obtain ⟨_, rfl⟩ := h
    simp only [List.length_drop, List.length_cons]
    omega
  | case3 acc s _ ih => exact Nat.lt_succ_of_lt (ih h)
  | case4 acc c s _ _ r' h₁ ih =>
    have := length_readContinuation h₁
    have := ih h
    simp only [List.length_cons]
    omega
  | case5 => simp at h
  | case6 acc c s _ _ _ d r' h₁ ih =>
    have := length_readEscape h₁
    have := ih h
    simp only [List.length_cons]
    omega
  | case7 acc c s _ _ r' h₁ ih => exact Nat.lt_trans (ih h) (length_readLineFeed h₁)
  | case8 acc c s _ _ _ _ ih => exact Nat.lt_succ_of_lt (ih h)
  | case9 => simp at h

theorem length_skipFirstLineFeed (s : List Char) : (skipFirstLineFeed s).length ≤ s.length := by
  unfold skipFirstLineFeed
  cases h : readLineFeed s with
  | none => exact Nat.le_refl _
  | some r => exact Nat.le_of_lt (length_readLineFeed h)

theorem length_readShort {mark : Char} {s cs r : List Char} (h : readShort mark s = some (cs, r)) :
    r.length < s.length := by
  unfold readShort at h
  split at h
  · exact length_readBasic h
  · exact length_readLiteral h

theorem length_readText {mark : Char} {s r : List Char} {t : String}
    (h : readText mark s = some (t, r)) : r.length < s.length := by
  simp only [readText, Option.map_eq_some_iff, Prod.mk.injEq, Prod.exists] at h
  obtain ⟨cs, r, h, _, rfl⟩ := h
  split at h
  · have h₁ := length_readLong h
    have h₂ := length_skipFirstLineFeed (s.drop 2)
    rw [List.length_drop] at h₂
    omega
  · exact length_readShort h

end Discussion.Toml
