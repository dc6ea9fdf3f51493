import Discussion.Json.Literal
import Discussion.Json.Number

/-!
# Reading values

`readItems` and `readMembers` read the inside of a list and of a record, given a reader for what
stands in it. `valueReader n` reads any value in which at most `n` brackets are open at a time; it is
built from `valueReader (n - 1)`, which reads what stands inside of its brackets.
-/

namespace Discussion.Json

open Text

universe u

variable {α : Type u}

/-- A reader takes a value from the front of a text and leaves the rest. -/
structure Reader (α : Type u) where
  /-- The value at the front of a text, and the rest of the text. -/
  run : List Char → Except Failure (α × List Char)
  /-- A value takes at least one character. -/
  shorter : ∀ {s : List Char} {a : α} {r : List Char}, run s = .ok (a, r) → r.length < s.length

/-- What follows in a list or in a record. -/
inductive Next where
  /-- Another item or member begins here. -/
  | more (rest : List Char)
  /-- The closing bracket was read, and this is behind it. -/
  | done (rest : List Char)

/-- The text that follows. -/
def Next.rest : Next → List Char
  | more s => s
  | done s => s

/-- Reads on in a list up to the next item or through its end. -/
def nextItem (isFirst : Bool) (s : List Char) : Except Failure Next :=
  match skipSpace s with
  | [] => .error { cause := .endInList, rest := [] }
  | c :: r =>
    if c = ']' then .ok (.done r)
    else if isFirst then .ok (.more (c :: r))
    else if c = ',' then
      match skipSpace r with
      | [] => .error { cause := .endInValue, rest := [] }
      | ']' :: t => .error { cause := .trailingComma, rest := ']' :: t }
      | t => .ok (.more t)
    else .error { cause := .expectedListSeparator, rest := c :: r }

/-- Reads the end of a list of which no further item is wanted. -/
def closeList (s : List Char) : Except Failure (List Char) :=
  match skipSpace s with
  | [] => .error { cause := .endInList, rest := [] }
  | ']' :: r => .ok r
  | ',' :: r =>
    match skipSpace r with
    | ']' :: t => .error { cause := .trailingComma, rest := ']' :: t }
    | t => .error { cause := .trailingText, rest := t }
  | t => .error { cause := .trailingText, rest := t }

/-- Reads on in a record through the quotation mark of the next name or through its end. -/
def nextMember (isFirst : Bool) (s : List Char) : Except Failure Next :=
  match skipSpace s with
  | [] => .error { cause := .endInRecord, rest := [] }
  | c :: r =>
    if c = '\x7d' then .ok (.done r)
    else if isFirst then
      if c = '"' then .ok (.more r) else .error { cause := .expectedKey, rest := c :: r }
    else if c = ',' then
      match skipSpace r with
      | [] => .error { cause := .endInValue, rest := [] }
      | '"' :: t => .ok (.more t)
      | '\x7d' :: t => .error { cause := .trailingComma, rest := '\x7d' :: t }
      | t => .error { cause := .expectedKey, rest := t }
    else .error { cause := .expectedRecordSeparator, rest := c :: r }

/-- Reads the colon behind a name. -/
def readColon (s : List Char) : Except Failure (List Char) :=
  match skipSpace s with
  | [] => .error { cause := .endInRecord, rest := [] }
  | ':' :: r => .ok r
  | t => .error { cause := .expectedColon, rest := t }

/-- Reads a name behind its quotation mark, and the colon. -/
def readName (s : List Char) : Except Failure (String × List Char) :=
  match readText s with
  | .error f => .error f
  | .ok (name, r) =>
    match readColon r with
    | .error f => .error f
    | .ok r => .ok (name, r)

theorem length_nextItem {isFirst : Bool} {s : List Char} {n : Next}
    (h : nextItem isFirst s = .ok n) : n.rest.length ≤ s.length := by
  have hs := length_skipSpace s
  unfold nextItem at h
  split at h
  · simp at h
  · next c r hr =>
    rw [hr, List.length_cons] at hs
    split at h
    · cases h
      exact Nat.le_of_succ_le hs
    · split at h
      · cases h
        exact hs
      · split at h
        · have ht := length_skipSpace r
          split at h
          · simp at h
          · simp at h
          · cases h
            simp only [Next.rest]
            omega
        · simp at h

theorem length_nextMember {isFirst : Bool} {s : List Char} {n : Next}
    (h : nextMember isFirst s = .ok n) : n.rest.length ≤ s.length := by
  have hs := length_skipSpace s
  unfold nextMember at h
  split at h
  · simp at h
  · next c r hr =>
    rw [hr, List.length_cons] at hs
    split at h
    · cases h
      exact Nat.le_of_succ_le hs
    · split at h
      · split at h
        · cases h
          exact Nat.le_of_succ_le hs
        · simp at h
      · split at h
        · have ht := length_skipSpace r
          split at h
          · simp at h
          · next hr' =>
            rw [hr', List.length_cons] at ht
            cases h
            simp only [Next.rest]
            omega
          · simp at h
          · simp at h
        · simp at h

theorem length_readColon {s r : List Char} (h : readColon s = .ok r) : r.length ≤ s.length := by
  have hs := length_skipSpace s
  unfold readColon at h
  split at h
  · simp at h
  · next hr =>
    rw [hr, List.length_cons] at hs
    cases h
    omega
  · simp at h

theorem length_readName {s r : List Char} {name : String} (h : readName s = .ok (name, r)) :
    r.length < s.length := by
  unfold readName at h
  split at h
  · simp at h
  · next h₁ =>
    split at h
    · simp at h
    · next h₂ =>
      cases h
      exact Nat.lt_of_le_of_lt (length_readColon h₂) (length_readText h₁)

/-- Reads the items of a list and its closing bracket. The items are put in front of `acc`, the last
one foremost. -/
def readItems (item : Reader α) (isFirst : Bool) (acc : List α) (s : List Char) :
    Except Failure (List α × List Char) :=
  match _h : nextItem isFirst s with
  | .error f => .error f
  | .ok (.done r) => .ok (acc.reverse, r)
  | .ok (.more t) =>
    match _g : item.run t with
    | .error f => .error f
    | .ok (a, r) => readItems item false (a :: acc) r
termination_by s.length
decreasing_by exact Nat.lt_of_lt_of_le (item.shorter _g) (length_nextItem _h)

/-- Reads the members of a record and its closing bracket. The members are put in front of `acc`, the
last one foremost. -/
def readMembers (value : Reader α) (isFirst : Bool) (acc : List (String × α))
    (s : List Char) : Except Failure (List (String × α) × List Char) :=
  match _h : nextMember isFirst s with
  | .error f => .error f
  | .ok (.done r) => .ok (acc.reverse, r)
  | .ok (.more t) =>
    match _n : readName t with
    | .error f => .error f
    | .ok (name, t) =>
      match _g : value.run t with
      | .error f => .error f
      | .ok (a, r) => readMembers value false ((name, a) :: acc) r
termination_by s.length
decreasing_by
  have h₁ := length_nextMember _h
  have h₂ := length_readName _n
  have h₃ := value.shorter _g
  simp only [Next.rest] at h₁
  omega

theorem length_readItems {item : Reader α} {isFirst : Bool} {acc as : List α}
    {s r : List Char} (h : readItems item isFirst acc s = .ok (as, r)) : r.length ≤ s.length := by
  fun_induction readItems item isFirst acc s with
  | case1 => simp at h
  | case2 isFirst acc s r' h₁ =>
    cases h
    exact length_nextItem h₁
  | case3 => simp at h
  | case4 isFirst acc s t h₁ a r' h₂ ih =>
    have h₃ := length_nextItem h₁
    have h₄ := item.shorter h₂
    have h₅ := ih h
    simp only [Next.rest] at h₃
    omega

theorem length_readMembers {value : Reader α} {isFirst : Bool}
    {acc as : List (String × α)} {s r : List Char}
    (h : readMembers value isFirst acc s = .ok (as, r)) : r.length ≤ s.length := by
  fun_induction readMembers value isFirst acc s with
  | case1 => simp at h
  | case2 isFirst acc s r' h₁ =>
    cases h
    exact length_nextMember h₁
  | case3 => simp at h
  | case4 => simp at h
  | case5 isFirst acc s t h₁ name t' h₂ a r' h₃ ih =>
    have h₄ := length_nextMember h₁
    have h₅ := length_readName h₂
    have h₆ := value.shorter h₃
    have h₇ := ih h
    simp only [Next.rest] at h₄
    omega

/-- Gives a value to what was read successfully. -/
def mapValue {β : Type u} (g : α → β) (x : Except Failure (α × List Char)) :
    Except Failure (β × List Char) :=
  match x with
  | .error f => .error f
  | .ok (a, r) => .ok (g a, r)

/-- Reads the rest of a word that stands for `d`. -/
def readConstant (w : List Char) (d : Data) (s : List Char) : Except Failure (Data × List Char) :=
  match readWord w s with
  | .error f => .error f
  | .ok r => .ok (d, r)

/-- Reads the value that begins with the character `c`. What stands in brackets is read by `inner`; if
there is none, brackets are refused. -/
def readValue (inner : Option (Reader Data)) (c : Char) (s : List Char) :
    Except Failure (Data × List Char) :=
  match c with
  | 'n' => readConstant ['u', 'l', 'l'] .null s
  | 't' => readConstant ['r', 'u', 'e'] (.boolean true) s
  | 'f' => readConstant ['a', 'l', 's', 'e'] (.boolean false) s
  | '-' => readNumber true s
  | '"' => mapValue .text (readText s)
  | '[' =>
    match inner with
    | none => .error { cause := .tooDeep, rest := '[' :: s }
    | some inner => mapValue .list (readItems inner true [] s)
  | '\x7b' =>
    match inner with
    | none => .error { cause := .tooDeep, rest := '\x7b' :: s }
    | some inner => mapValue .record (readMembers inner true [] s)
  | c =>
    if c.isDigit then readNumber false (c :: s)
    else .error { cause := .expectedValue, rest := c :: s }

/-- Reads a value, passing over the white space before it. -/
def readSpacedValue (inner : Option (Reader Data)) (s : List Char) :
    Except Failure (Data × List Char) :=
  match skipSpace s with
  | [] => .error { cause := .endInValue, rest := [] }
  | c :: r => readValue inner c r

theorem mapValue_eq_ok {β : Type u} {g : α → β} {x : Except Failure (α × List Char)} {b : β}
    {r : List Char} (h : mapValue g x = .ok (b, r)) : ∃ a, x = .ok (a, r) := by
  unfold mapValue at h
  split at h
  · simp at h
  · cases h
    exact ⟨_, rfl⟩

theorem length_readConstant {w s r : List Char} {d e : Data}
    (h : readConstant w d s = .ok (e, r)) : r.length ≤ s.length := by
  unfold readConstant at h
  split at h
  · simp at h
  · next h₁ =>
    cases h
    exact length_readWord h₁

theorem length_readValue {inner : Option (Reader Data)} {c : Char} {s r : List Char}
    {d : Data} (h : readValue inner c s = .ok (d, r)) : r.length ≤ s.length := by
  unfold readValue at h
  split at h
  · exact length_readConstant h
  · exact length_readConstant h
  · exact length_readConstant h
  · exact Nat.le_of_lt (length_readNumber h)
  · obtain ⟨_, h₁⟩ := mapValue_eq_ok h
    exact Nat.le_of_lt (length_readText h₁)
  · split at h
    · simp at h
    · obtain ⟨_, h₁⟩ := mapValue_eq_ok h
      exact length_readItems h₁
  · split at h
    · simp at h
    · obtain ⟨_, h₁⟩ := mapValue_eq_ok h
      exact length_readMembers h₁
  · split at h
    · exact Nat.le_of_lt_succ (length_readNumber h)
    · simp at h

theorem length_readSpacedValue {inner : Option (Reader Data)} {s r : List Char} {d : Data}
    (h : readSpacedValue inner s = .ok (d, r)) : r.length < s.length := by
  have hs := length_skipSpace s
  unfold readSpacedValue at h
  split at h
  · simp at h
  · next hr =>
    rw [hr, List.length_cons] at hs
    exact Nat.lt_of_le_of_lt (length_readValue h) hs

/-- The reader of a value whose brackets are filled by `inner`. -/
def layerReader (inner : Option (Reader Data)) : Reader Data where
  run := readSpacedValue inner
  shorter := length_readSpacedValue

/-- The reader of values in which at most `n` brackets are open at a time. -/
def valueReader : (n : Nat) → Reader Data
  | 0 => layerReader none
  | n + 1 => layerReader (some (valueReader n))

/-- The number of brackets that may be open at a time. -/
def maxDepth : Nat := 127

/-- Reads the value at the front of a text. -/
def readFront (s : List Char) : Except Failure (Data × List Char) :=
  (valueReader maxDepth).run s

/-- Accepts the end of the text, white space apart. -/
def readEnd (s : List Char) : Except Failure Unit :=
  match skipSpace s with
  | [] => .ok ()
  | t => .error { cause := .trailingText, rest := t }

/-- Reads a text that holds one value and nothing else. -/
def read (s : List Char) : Except Failure Data :=
  match readFront s with
  | .error f => .error f
  | .ok (d, r) =>
    match readEnd r with
    | .error f => .error f
    | .ok () => .ok d

end Discussion.Json
