import Discussion.Json.Reader

/-!
# Passing over values

A value that nobody wants is passed over without being built. Brackets may then be nested as deeply as
they are: the open ones are kept on a list. Numbers are not given a value, so that none is too great,
and a code in a text may be any four digits.
-/

namespace Discussion.Json

open Text

/-- Passes over a sign, if there is one. -/
def skipSign : List Char → List Char
  | '+' :: s => s
  | '-' :: s => s
  | s => s

/-- Passes over an exponent behind its letter. -/
def skipExponent (s : List Char) : Except Failure (List Char) :=
  if ((skipSign s).takeWhile Char.isDigit).isEmpty then
    .error { cause := .invalidNumber, rest := skipSign s }
  else .ok ((skipSign s).dropWhile Char.isDigit)

/-- Passes over what follows the whole part of a number. -/
def skipFraction : List Char → Except Failure (List Char)
  | [] => .ok []
  | c :: s =>
    if c = '.' then
      if (s.takeWhile Char.isDigit).isEmpty then .error { cause := .invalidNumber, rest := s }
      else
        match s.dropWhile Char.isDigit with
        | [] => .ok []
        | d :: r => if d = 'e' ∨ d = 'E' then skipExponent r else .ok (d :: r)
    else if c = 'e' ∨ c = 'E' then skipExponent s
    else .ok (c :: s)

/-- Passes over a number behind its sign. -/
def skipNumber (s : List Char) : Except Failure (List Char) :=
  match Numeral.readWhole s with
  | .error f => .error { f with cause := .invalidNumber }
  | .ok (_, r) => skipFraction r

/-- Passes over what a backslash introduces. -/
def skipEscape : List Char → Except Failure (List Char)
  | [] => .error { cause := .endInText, rest := [] }
  | c :: s =>
    if c = 'u' then
      match readHex s with
      | .error f => .error f
      | .ok (_, r) => .ok r
    else if (escaped? c).isSome then .ok s
    else .error { cause := .invalidEscape, rest := c :: s }

theorem length_skipSign (s : List Char) : (skipSign s).length ≤ s.length := by
  unfold skipSign
  split <;> simp

theorem length_skipExponent {s r : List Char} (h : skipExponent s = .ok r) :
    r.length ≤ s.length := by
  unfold skipExponent at h
  split at h
  · simp at h
  · simp only [Except.ok.injEq] at h
    exact h ▸ Nat.le_trans (length_dropWhile_le _ _) (length_skipSign s)

theorem length_skipFraction {s r : List Char} (h : skipFraction s = .ok r) :
    r.length ≤ s.length := by
  cases s with
  | nil =>
    cases h
    exact Nat.le_refl _
  | cons c s =>
    have hs := length_dropWhile_le Char.isDigit s
    simp only [skipFraction] at h
    split at h
    · split at h
      · simp at h
      · split at h
        · cases h
          exact Nat.zero_le _
        · next d t ht =>
          rw [ht, List.length_cons] at hs
          split at h
          · have := length_skipExponent h
            simp only [List.length_cons]
            omega
          · cases h
            simp only [List.length_cons]
            omega
    · split at h
      · exact Nat.le_succ_of_le (length_skipExponent h)
      · cases h
        exact Nat.le_refl _

theorem length_skipNumber {s r : List Char} (h : skipNumber s = .ok r) :
    r.length < s.length := by
  unfold skipNumber at h
  split at h
  · simp at h
  · next h₁ => exact Nat.lt_of_le_of_lt (length_skipFraction h) (Numeral.length_readWhole h₁)

theorem length_skipEscape {s r : List Char} (h : skipEscape s = .ok r) : r.length ≤ s.length := by
  cases s with
  | nil => simp [skipEscape] at h
  | cons c s =>
    simp only [skipEscape] at h
    split at h
    · split at h
      · simp at h
      · next h₁ =>
        cases h
        exact Nat.le_succ_of_le (length_readHex h₁)
    · split at h
      · cases h
        exact Nat.le_succ _
      · simp at h

/-- Passes over a text behind its opening quotation mark. -/
def skipText : List Char → Except Failure (List Char)
  | [] => .error { cause := .endInText, rest := [] }
  | c :: s =>
    if c = '"' then .ok s
    else if c = '\\' then
      match _h : skipEscape s with
      | .error f => .error f
      | .ok r => skipText r
    else if c < ' ' then .error { cause := .controlCharacter, rest := c :: s }
    else skipText s
termination_by s => s.length
decreasing_by
  · exact Nat.lt_succ_of_le (length_skipEscape _h)
  · exact Nat.lt_succ_self _

theorem length_skipText {s r : List Char} (h : skipText s = .ok r) : r.length < s.length := by
  fun_induction skipText s with
  | case1 => simp at h
  | case2 =>
    cases h
    exact Nat.lt_succ_self _
  | case3 => simp at h
  | case4 s r' h₁ _ ih =>
    have := length_skipEscape h₁
    have := ih h
    simp only [List.length_cons]
    omega
  | case5 => simp at h
  | case6 c s _ _ _ ih => exact Nat.lt_succ_of_lt (ih h)

/-- The kinds of brackets. -/
inductive Bracket where
  | list
  | record
deriving DecidableEq, Repr

namespace Bracket

/-- The closing bracket. -/
def closing : Bracket → Char
  | list => ']'
  | record => '\x7d'

/-- Passes over what precedes a value in brackets: nothing in a list, its name in a record. -/
def skipName : Bracket → List Char → Except Failure (List Char)
  | list, s => .ok s
  | record, s =>
    match skipSpace s with
    | [] => .error { cause := .endInRecord, rest := [] }
    | '"' :: r =>
      match skipText r with
      | .error f => .error f
      | .ok r => readColon r
    | t => .error { cause := .expectedKey, rest := t }

/-- Goes on inside brackets, to the next value in them or past their end. -/
def next (b : Bracket) (isFirst : Bool) (s : List Char) : Except Failure Next :=
  match skipSpace s with
  | [] => .error { cause := match b with | list => .endInList | record => .endInRecord, rest := [] }
  | c :: r =>
    if c = b.closing then .ok (.done r)
    else if isFirst ∨ c = ',' then
      match b.skipName (if isFirst then c :: r else r) with
      | .error f => .error f
      | .ok t => .ok (.more t)
    else
      .error {
        cause := match b with | list => .expectedListSeparator | record => .expectedRecordSeparator
        rest := c :: r }

theorem length_skipName {b : Bracket} {s r : List Char} (h : b.skipName s = .ok r) :
    r.length ≤ s.length := by
  cases b with
  | list =>
    cases h
    exact Nat.le_refl _
  | record =>
    have hs := length_skipSpace s
    simp only [skipName] at h
    split at h
    · simp at h
    · next hr =>
      rw [hr, List.length_cons] at hs
      split at h
      · simp at h
      · next h₁ =>
        have := length_skipText h₁
        have := length_readColon h
        omega
    · simp at h

/-- Passing the closing bracket takes a character. -/
theorem length_next_done {b : Bracket} {isFirst : Bool} {s r : List Char}
    (h : b.next isFirst s = .ok (.done r)) : r.length < s.length := by
  have hs := length_skipSpace s
  unfold next at h
  split at h
  · simp at h
  · next hr =>
    rw [hr, List.length_cons] at hs
    split at h
    · cases h
      exact hs
    · split at h
      · split at h <;> simp at h
      · simp at h

theorem length_next_more {b : Bracket} {isFirst : Bool} {s r : List Char}
    (h : b.next isFirst s = .ok (.more r)) : r.length ≤ s.length := by
  have hs := length_skipSpace s
  unfold next at h
  split at h
  · simp at h
  · next hr =>
    rw [hr, List.length_cons] at hs
    split at h
    · simp at h
    · split at h
      · split at h
        · simp at h
        · next h₁ =>
          have h₂ := length_skipName h₁
          cases h
          refine Nat.le_trans (Nat.le_trans h₂ ?_) hs
          split <;> simp
      · simp at h

end Bracket

/-- A value, or the brackets before its inside. -/
inductive Opening where
  /-- A value was passed over, and this is behind it. -/
  | whole (rest : List Char)
  /-- A bracket was passed, and this is behind it. -/
  | bracket (b : Bracket) (rest : List Char)

/-- What is behind the value or bracket. -/
def Opening.rest : Opening → List Char
  | whole s => s
  | bracket _ s => s

/-- A value that was passed over successfully. -/
def Opening.ofRest : Except Failure (List Char) → Except Failure Opening
  | .error f => .error f
  | .ok r => .ok (.whole r)

/-- Passes over the value without brackets, or the opening bracket, that begins with the character
`c`. -/
def skipOpeningAt (c : Char) (s : List Char) : Except Failure Opening :=
  match c with
  | 'n' => Opening.ofRest (readWord ['u', 'l', 'l'] s)
  | 't' => Opening.ofRest (readWord ['r', 'u', 'e'] s)
  | 'f' => Opening.ofRest (readWord ['a', 'l', 's', 'e'] s)
  | '-' => Opening.ofRest (skipNumber s)
  | '"' => Opening.ofRest (skipText s)
  | '[' => .ok (.bracket .list s)
  | '\x7b' => .ok (.bracket .record s)
  | c =>
    if c.isDigit then Opening.ofRest (skipNumber (c :: s))
    else .error { cause := .expectedValue, rest := c :: s }

/-- Passes over a value without brackets, or over an opening bracket. -/
def skipOpening (s : List Char) : Except Failure Opening :=
  match skipSpace s with
  | [] => .error { cause := .endInValue, rest := [] }
  | c :: r => skipOpeningAt c r

theorem Opening.ofRest_eq_ok {x : Except Failure (List Char)} {o : Opening}
    (h : Opening.ofRest x = .ok o) : x = .ok o.rest := by
  unfold Opening.ofRest at h
  split at h
  · simp at h
  · cases h
    rfl

theorem length_skipOpeningAt {c : Char} {s : List Char} {o : Opening}
    (h : skipOpeningAt c s = .ok o) : o.rest.length ≤ s.length := by
  unfold skipOpeningAt at h
  split at h
  · exact length_readWord (Opening.ofRest_eq_ok h)
  · exact length_readWord (Opening.ofRest_eq_ok h)
  · exact length_readWord (Opening.ofRest_eq_ok h)
  · exact Nat.le_of_lt (length_skipNumber (Opening.ofRest_eq_ok h))
  · exact Nat.le_of_lt (length_skipText (Opening.ofRest_eq_ok h))
  · cases h
    exact Nat.le_refl _
  · cases h
    exact Nat.le_refl _
  · split at h
    · exact Nat.le_of_lt_succ (length_skipNumber (Opening.ofRest_eq_ok h))
    · simp at h

theorem length_skipOpening {s : List Char} {o : Opening} (h : skipOpening s = .ok o) :
    o.rest.length < s.length := by
  have hs := length_skipSpace s
  unfold skipOpening at h
  split at h
  · simp at h
  · next hr =>
    rw [hr, List.length_cons] at hs
    exact Nat.lt_of_le_of_lt (length_skipOpeningAt h) hs

mutual

/-- Passes over a value inside the open brackets, and over the rest of them. -/
def skipValue (open_ : List Bracket) (s : List Char) : Except Failure (List Char) :=
  match _h : skipOpening s with
  | .error f => .error f
  | .ok (.whole r) => skipBrackets open_ false r
  | .ok (.bracket b r) => skipBrackets (b :: open_) true r
termination_by (s.length, 0)
decreasing_by
  all_goals exact Prod.Lex.left _ _ (length_skipOpening _h)

/-- Passes over the rest of the open brackets. -/
def skipBrackets (open_ : List Bracket) (isFirst : Bool) (s : List Char) :
    Except Failure (List Char) :=
  match open_ with
  | [] => .ok s
  | b :: outer =>
    match _h : b.next isFirst s with
    | .error f => .error f
    | .ok (.more t) => skipValue (b :: outer) t
    | .ok (.done r) => skipBrackets outer false r
termination_by (s.length, 1)
decreasing_by
  · rcases Nat.lt_or_eq_of_le (Bracket.length_next_more _h) with h | h
    · exact Prod.Lex.left _ _ h
    · rw [h]; exact Prod.Lex.right _ Nat.zero_lt_one
  · exact Prod.Lex.left _ _ (Bracket.length_next_done _h)

end

/-- Passes over the value at the front of a text. -/
def skip (s : List Char) : Except Failure (List Char) :=
  skipValue [] s

theorem length_skipValue_le (n : Nat) :
    (∀ open_ s r, s.length = n → skipValue open_ s = .ok r → r.length < n) ∧
      (∀ open_ isFirst s r, s.length = n → skipBrackets open_ isFirst s = .ok r →
        r.length ≤ n) := by
  induction n using Nat.strongRecOn with
  | ind n ih =>
    have value : ∀ open_ s r, s.length = n → skipValue open_ s = .ok r → r.length < n := by
      intro open_ s r hn h
      rw [skipValue] at h
      split at h
      · simp at h
      · next h₁ =>
        have h₂ := length_skipOpening h₁
        exact Nat.lt_of_le_of_lt ((ih _ (hn ▸ h₂)).2 _ _ _ _ rfl h) (hn ▸ h₂)
      · next h₁ =>
        have h₂ := length_skipOpening h₁
        exact Nat.lt_of_le_of_lt ((ih _ (hn ▸ h₂)).2 _ _ _ _ rfl h) (hn ▸ h₂)
    refine ⟨value, ?_⟩
    intro open_ isFirst s r hn h
    rw [skipBrackets.eq_def] at h
    split at h
    · cases h
      exact Nat.le_of_eq hn
    · split at h
      · simp at h
      · next h₁ =>
        have h₂ := Bracket.length_next_more h₁
        rcases Nat.lt_or_eq_of_le h₂ with h₃ | h₃
        · exact Nat.le_of_lt (Nat.lt_trans ((ih _ (hn ▸ h₃)).1 _ _ _ rfl h) (hn ▸ h₃))
        · exact Nat.le_of_lt (value _ _ _ (h₃.trans hn) h)
      · next h₁ =>
        have h₂ := Bracket.length_next_done h₁
        exact Nat.le_trans ((ih _ (hn ▸ h₂)).2 _ _ _ _ rfl h) (Nat.le_of_lt (hn ▸ h₂))

theorem length_skip {s r : List Char} (h : skip s = .ok r) : r.length < s.length :=
  (length_skipValue_le s.length).1 _ _ _ rfl h

end Discussion.Json
