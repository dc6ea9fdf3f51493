import Discussion.Json.Failure
import Discussion.Text.Digits

/-!
# Words and texts

The words `null`, `true` and `false`, and texts between quotation marks.
-/

namespace Discussion.Json

open Text

/-- The white space that may stand between the parts of a value. -/
def isSpace (c : Char) : Bool :=
  c == ' ' || c == '\n' || c == '\t' || c == '\r'

/-- Passes over white space. -/
def skipSpace (s : List Char) : List Char :=
  s.dropWhile isSpace

theorem length_skipSpace (s : List Char) : (skipSpace s).length ≤ s.length :=
  length_dropWhile_le _ s

/-- Reads the given characters. -/
def readWord : List Char → List Char → Except Failure (List Char)
  | [], s => .ok s
  | _ :: _, [] => .error { cause := .endInValue, rest := [] }
  | w :: ws, c :: s =>
    if c = w then readWord ws s else .error { cause := .expectedWord, rest := c :: s }

theorem length_readWord {w s r : List Char} (h : readWord w s = .ok r) : r.length ≤ s.length := by
  induction w generalizing s with
  | nil =>
    simp only [readWord, Except.ok.injEq] at h
    exact h ▸ Nat.le_refl _
  | cons c w ih =>
    cases s with
    | nil => simp [readWord] at h
    | cons d s =>
      simp only [readWord] at h
      split at h
      · exact Nat.le_succ_of_le (ih h)
      · simp at h

/-- Reads four digits in base 16. The next four bytes are looked at together, and fewer are the end
of the text. -/
def readHex : List Char → Except Failure (Nat × List Char)
  | a :: b :: c :: d :: s =>
    match hexValue? a, hexValue? b, hexValue? c, hexValue? d with
    | some a, some b, some c, some d => .ok (valueOfDigits 16 [a, b, c, d], s)
    | _, _, _, _ => .error { cause := .invalidEscape, rest := a :: b :: c :: d :: s, seen := 4 }
  | s =>
    if byteSize s < 4 then .error { cause := .endInText, rest := [] }
    else .error { cause := .invalidEscape, rest := s, seen := 4 }

/-- Whether a number is the first half of a surrogate pair. -/
def isLeading (n : Nat) : Bool :=
  0xD800 ≤ n && n ≤ 0xDBFF

/-- Whether a number is the second half of a surrogate pair. -/
def isTrailing (n : Nat) : Bool :=
  0xDC00 ≤ n && n ≤ 0xDFFF

/-- Reads what follows the first half of a surrogate pair. -/
def readTrailing (leading : Nat) : List Char → Except Failure (Char × List Char)
  | '\\' :: 'u' :: s =>
    match readHex s with
    | .error f => .error f
    | .ok (n, r) =>
      if isTrailing n then
        .ok (Char.ofNat (0x10000 + (leading - 0xD800) * 0x400 + (n - 0xDC00)), r)
      else .error { cause := .loneSurrogate, rest := r, seen := 0 }
  | '\\' :: s =>
    .error { cause := if s.isEmpty then .endInText else .unfinishedEscape, rest := s }
  | s => .error { cause := if s.isEmpty then .endInText else .unfinishedEscape, rest := s }

/-- Reads the character that a code stands for, behind `\u`. -/
def readCode (s : List Char) : Except Failure (Char × List Char) :=
  match readHex s with
  | .error f => .error f
  | .ok (n, r) =>
    if isTrailing n then .error { cause := .loneSurrogate, rest := r, seen := 0 }
    else if isLeading n then readTrailing n r
    else .ok (Char.ofNat n, r)

/-- What a single character stands for behind a backslash. -/
def escaped? : Char → Option Char
  | '"' => some '"'
  | '\\' => some '\\'
  | '/' => some '/'
  | 'b' => some '\x08'
  | 'f' => some '\x0c'
  | 'n' => some '\n'
  | 'r' => some '\r'
  | 't' => some '\t'
  | _ => none

/-- Reads what a backslash introduces. -/
def readEscape : List Char → Except Failure (Char × List Char)
  | [] => .error { cause := .endInText, rest := [] }
  | c :: s =>
    if c = 'u' then readCode s
    else
      match escaped? c with
      | some d => .ok (d, s)
      | none => .error { cause := .invalidEscape, rest := c :: s }

theorem length_readHex {s r : List Char} {n : Nat} (h : readHex s = .ok (n, r)) :
    r.length ≤ s.length := by
  unfold readHex at h
  split at h
  · split at h
    · simp only [Except.ok.injEq, Prod.mk.injEq] at h
      obtain ⟨_, rfl⟩ := h
      simp only [List.length_cons]
      omega
    · simp at h
  · split at h <;> simp at h

theorem length_readTrailing {n : Nat} {s r : List Char} {c : Char}
    (h : readTrailing n s = .ok (c, r)) : r.length ≤ s.length := by
  unfold readTrailing at h
  split at h
  · split at h
    · simp at h
    · next h₁ =>
      split at h
      · simp only [Except.ok.injEq, Prod.mk.injEq] at h
        obtain ⟨_, rfl⟩ := h
        have := length_readHex h₁
        simp only [List.length_cons]
        omega
      · simp at h
  · simp at h
  · simp at h

theorem length_readCode {s r : List Char} {c : Char} (h : readCode s = .ok (c, r)) :
    r.length ≤ s.length := by
  unfold readCode at h
  split at h
  · simp at h
  · next h₁ =>
    have := length_readHex h₁
    split at h
    · simp at h
    · split at h
      · exact Nat.le_trans (length_readTrailing h) this
      · simp only [Except.ok.injEq, Prod.mk.injEq] at h
        obtain ⟨_, rfl⟩ := h
        exact this

theorem length_readEscape {s r : List Char} {c : Char} (h : readEscape s = .ok (c, r)) :
    r.length ≤ s.length := by
  cases s with
  | nil => simp [readEscape] at h
  | cons d s =>
    simp only [readEscape] at h
    split at h
    · exact Nat.le_succ_of_le (length_readCode h)
    · split at h
      · simp only [Except.ok.injEq, Prod.mk.injEq] at h
        obtain ⟨_, rfl⟩ := h
        exact Nat.le_succ _
      · simp at h

/-- Reads the rest of a text up to its closing quotation mark. The characters read are put in front of
`acc`, the last one foremost. -/
def readTextFrom (acc : List Char) : List Char → Except Failure (List Char × List Char)
  | [] => .error { cause := .endInText, rest := [] }
  | c :: s =>
    if c = '"' then .ok (acc.reverse, s)
    else if c = '\\' then
      match _h : readEscape s with
      | .error f => .error f
      | .ok (d, r) => readTextFrom (d :: acc) r
    else if c < ' ' then .error { cause := .controlCharacter, rest := c :: s }
    else readTextFrom (c :: acc) s
termination_by s => s.length
decreasing_by
  · exact Nat.lt_succ_of_le (length_readEscape _h)
  · exact Nat.lt_succ_self _

/-- Reads a text behind its opening quotation mark. -/
def readText (s : List Char) : Except Failure (String × List Char) :=
  match readTextFrom [] s with
  | .error f => .error f
  | .ok (cs, r) => .ok (String.ofList cs, r)

theorem length_readTextFrom {acc s cs r : List Char} (h : readTextFrom acc s = .ok (cs, r)) :
    r.length < s.length := by
  fun_induction readTextFrom acc s with
  | case1 => simp at h
  | case2 acc s =>
    simp only [Except.ok.injEq, Prod.mk.injEq] at h
    obtain ⟨_, rfl⟩ := h
    exact Nat.lt_succ_self _
  | case3 => simp at h
  | case4 acc s d r' h₁ _ ih =>
    have := length_readEscape h₁
    have := ih h
    simp only [List.length_cons]
    omega
  | case5 => simp at h
  | case6 acc c s _ _ _ ih => exact Nat.lt_succ_of_lt (ih h)

theorem length_readText {s r : List Char} {t : String} (h : readText s = .ok (t, r)) :
    r.length < s.length := by
  unfold readText at h
  split at h
  · simp at h
  · next h₁ =>
    simp only [Except.ok.injEq, Prod.mk.injEq] at h
    obtain ⟨_, rfl⟩ := h
    exact length_readTextFrom h₁

end Discussion.Json
