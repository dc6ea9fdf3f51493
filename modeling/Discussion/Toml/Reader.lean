import Discussion.Toml.Literal
import Discussion.Toml.Scalar

/-!
# Reading TOML

A text is a sequence of lines, each with a header, with a key and its value, or empty. `Reading` keeps
the tables read so far and the header under which the next line stands. A value may run over several
lines where it stands in an array or between three marks.

`valueReader n` reads values in which at most `n` brackets are open at a time.
-/

namespace Discussion.Toml

/-- A reader takes a value from the front of a text and leaves the rest. -/
structure Reader where
  /-- The value at the front of a text, and the rest of the text. -/
  run : List Char → Option (Value × List Char)
  /-- A value takes at least one character. -/
  shorter : ∀ {s : List Char} {v : Value} {r : List Char}, run s = some (v, r) →
    r.length < s.length

/-- The number of brackets that may be open at a time, and of names in a key. -/
def maxDepth : Nat := 79

/-! ## Keys -/

/-- Whether a character may stand in a name without quotation marks. -/
def isBare (c : Char) : Bool :=
  c.isAlphanum || c == '-' || c == '_'

/-- Reads one name of a key. -/
def readPart : List Char → Option (String × List Char)
  | '"' :: s => (readBasic [] s).map fun (cs, r) => (String.ofList cs, r)
  | '\'' :: s => (readLiteral s).map fun (cs, r) => (String.ofList cs, r)
  | s =>
    match s.dropWhile isBare, s.takeWhile isBare with
    | _, [] => none
    | r, cs => some (String.ofList cs, r)

theorem length_readPart {s r : List Char} {name : String} (h : readPart s = some (name, r)) :
    r.length < s.length := by
  unfold readPart at h
  split at h
  · simp only [Option.map_eq_some_iff, Prod.mk.injEq, Prod.exists] at h
    obtain ⟨cs, r, h, _, rfl⟩ := h
    exact Nat.lt_succ_of_lt (length_readBasic h)
  · simp only [Option.map_eq_some_iff, Prod.mk.injEq, Prod.exists] at h
    obtain ⟨cs, r, h, _, rfl⟩ := h
    exact Nat.lt_succ_of_lt (length_readLiteral h)
  · split at h
    · simp at h
    · next h₁ =>
      simp only [Option.some.injEq, Prod.mk.injEq] at h
      obtain ⟨_, rfl⟩ := h
      cases s with
      | nil => simp at h₁
      | cons c s =>
        simp only [List.takeWhile_cons] at h₁
        split at h₁
        · next hc =>
          rw [List.dropWhile_cons_of_pos hc]
          exact Nat.lt_succ_of_le (Text.length_dropWhile_le _ s)
        · exact absurd rfl h₁

/-- Reads the names of a key and the blanks behind it. The names are put in front of `acc`, the last one
foremost. -/
def readNames (acc : List String) (s : List Char) : Option (List String × List Char) :=
  match _h : readPart (skipBlanks s) with
  | none => none
  | some (name, r) =>
    match _g : skipBlanks r with
    | '.' :: t => readNames (name :: acc) t
    | t => some (name :: acc, t)
termination_by s.length
decreasing_by
  have h₁ := length_readPart _h
  have h₂ := length_skipBlanks s
  have h₃ := length_skipBlanks r
  rw [_g, List.length_cons] at h₃
  omega

/-- A key: the names before its last dot, and the name behind it. -/
structure Key where
  path : List String
  name : String

/-- Reads a key and the blanks behind it. -/
def readKey (s : List Char) : Option (Key × List Char) :=
  match readNames [] s with
  | some (name :: names, r) =>
    if names.length < maxDepth then some (⟨names.reverse, name⟩, r) else none
  | _ => none

theorem length_readNames {acc names : List String} {s r : List Char}
    (h : readNames acc s = some (names, r)) : r.length < s.length := by
  fun_induction readNames acc s with
  | case1 => simp at h
  | case2 acc s name r' h₁ t h₂ ih =>
    have h₃ := length_readPart h₁
    have h₄ := length_skipBlanks s
    have h₅ := length_skipBlanks r'
    rw [h₂, List.length_cons] at h₅
    have := ih h
    omega
  | case3 acc s name r' h₁ =>
    have h₃ := length_readPart h₁
    have h₄ := length_skipBlanks s
    have h₅ := length_skipBlanks r'
    simp only [Option.some.injEq, Prod.mk.injEq] at h
    obtain ⟨_, rfl⟩ := h
    omega

theorem length_readKey {s r : List Char} {k : Key} (h : readKey s = some (k, r)) :
    r.length < s.length := by
  unfold readKey at h
  split at h
  · next h₁ =>
    split at h
    · simp only [Option.some.injEq, Prod.mk.injEq] at h
      obtain ⟨_, rfl⟩ := h
      exact length_readNames h₁
    · simp at h
  · simp at h

/-! ## Values -/

/-- Reads the given character behind blanks, comments and line ends. -/
def readSpacedMark (mark : Char) (s : List Char) : Option (List Char) :=
  match skipLines s with
  | [] => none
  | c :: r => if c = mark then some r else none

theorem length_readSpacedMark {mark : Char} {s r : List Char} (h : readSpacedMark mark s = some r) :
    r.length < s.length := by
  have hs := length_skipLines s
  unfold readSpacedMark at h
  split at h
  · simp at h
  · next hr =>
    rw [hr, List.length_cons] at hs
    split at h
    · cases h
      exact hs
    · simp at h

/-- Reads the items of an array and its closing bracket. The items are put in front of `acc`, the last
one foremost. A comma may stand behind the last item. -/
def readItems (item : Reader) (acc : List Value) (s : List Char) : Option (Value × List Char) :=
  match readSpacedMark ']' s with
  | some r => some (.array acc.reverse, r)
  | none =>
    match _h : item.run (skipLines s) with
    | none => none
    | some (v, r) =>
      match _g : readSpacedMark ',' r with
      | some t => readItems item (v :: acc) t
      | none => (readSpacedMark ']' r).map fun t => (.array (v :: acc).reverse, t)
termination_by s.length
decreasing_by
  have h₁ := item.shorter _h
  have h₂ := length_skipLines s
  have h₃ := length_readSpacedMark _g
  omega

/-- Reads a key, an equals sign and a value on one line. -/
def readPair (value : Reader) (s : List Char) : Option ((Key × Value) × List Char) :=
  match readKey s with
  | some (k, '=' :: r) =>
    match value.run (skipBlanks r) with
    | some (v, r) => some ((k, v), r)
    | none => none
  | _ => none

theorem length_readPair {value : Reader} {s r : List Char} {p : Key × Value}
    (h : readPair value s = some (p, r)) : r.length < s.length := by
  unfold readPair at h
  split at h
  · next k t h₁ =>
    split at h
    · next h₂ =>
      simp only [Option.some.injEq, Prod.mk.injEq] at h
      obtain ⟨_, rfl⟩ := h
      have h₃ := length_readKey h₁
      have h₄ := value.shorter h₂
      have h₅ := length_skipBlanks t
      rw [List.length_cons] at h₃
      omega
    · simp at h
  · simp at h

/-- Reads the members of an inline table and its closing bracket, given those read before. -/
def readMembers (value : Reader) (ms : Members) (s : List Char) : Option (Value × List Char) :=
  match _h : readPair value s with
  | none => none
  | some ((k, v), r) =>
    match ms.put k.path k.name v with
    | none => none
    | some ms =>
      match _g : skipBlanks r with
      | '\x7d' :: t => some (.table .inlined ms, t)
      | ',' :: t => readMembers value ms t
      | _ => none
termination_by s.length
decreasing_by
  have h₁ := length_readPair _h
  have h₂ := length_skipBlanks r
  rw [_g, List.length_cons] at h₂
  omega

/-- Reads the inside of an inline table and its closing bracket. -/
def readTable (value : Reader) (s : List Char) : Option (Value × List Char) :=
  match skipBlanks s with
  | '\x7d' :: r => some (.table .inlined [], r)
  | _ => readMembers value [] s

/-- Reads the value that begins with the character `c`. What stands in brackets is read by `inner`; if
there is none, brackets are refused. -/
def readValueAt (inner : Option Reader) (c : Char) (s : List Char) : Option (Value × List Char) :=
  if c = '"' ∨ c = '\'' then (readText c s).map fun (t, r) => (.text t, r)
  else if c = '[' then inner.bind fun inner => readItems inner [] s
  else if c = '\x7b' then inner.bind fun inner => readTable inner s
  else if isScalar c then
    (scalar? (splitRun (c :: s)).1).map fun v => (v, (splitRun (c :: s)).2)
  else none

/-- Reads a value. -/
def readValue (inner : Option Reader) : List Char → Option (Value × List Char)
  | [] => none
  | c :: s => readValueAt inner c s

theorem length_readItems {item : Reader} {acc : List Value} {s r : List Char} {v : Value}
    (h : readItems item acc s = some (v, r)) : r.length < s.length := by
  fun_induction readItems item acc s with
  | case1 acc s t h₁ =>
    simp only [Option.some.injEq, Prod.mk.injEq] at h
    obtain ⟨_, rfl⟩ := h
    exact length_readSpacedMark h₁
  | case2 => simp at h
  | case3 acc s _ w r' h₁ t h₂ ih =>
    have := item.shorter h₁
    have := length_skipLines s
    have := length_readSpacedMark h₂
    have := ih h
    omega
  | case4 acc s _ w r' h₁ _ =>
    simp only [Option.map_eq_some_iff, Prod.mk.injEq] at h
    obtain ⟨t, h₂, _, rfl⟩ := h
    have := item.shorter h₁
    have := length_skipLines s
    have := length_readSpacedMark h₂
    omega

theorem length_readMembers {value : Reader} {ms : Members} {s r : List Char} {v : Value}
    (h : readMembers value ms s = some (v, r)) : r.length < s.length := by
  fun_induction readMembers value ms s with
  | case1 => simp at h
  | case2 => simp at h
  | case3 ms s k w r' h₁ ms' _ t h₂ =>
    have h₃ := length_readPair h₁
    have h₄ := length_skipBlanks r'
    rw [h₂, List.length_cons] at h₄
    simp only [Option.some.injEq, Prod.mk.injEq] at h
    obtain ⟨_, rfl⟩ := h
    omega
  | case4 ms s k w r' h₁ ms' _ t h₂ ih =>
    have h₃ := length_readPair h₁
    have h₄ := length_skipBlanks r'
    rw [h₂, List.length_cons] at h₄
    have := ih h
    omega
  | case5 => simp at h

theorem length_readTable {value : Reader} {s r : List Char} {v : Value}
    (h : readTable value s = some (v, r)) : r.length < s.length := by
  have hs := length_skipBlanks s
  unfold readTable at h
  split at h
  · next hr =>
    rw [hr, List.length_cons] at hs
    simp only [Option.some.injEq, Prod.mk.injEq] at h
    obtain ⟨_, rfl⟩ := h
    exact hs
  · exact length_readMembers h

theorem length_splitRun_lt {c : Char} (hc : isScalar c) (s : List Char) :
    (splitRun (c :: s)).2.length < (c :: s).length := by
  have hs := Text.length_dropWhile_le isScalar s
  unfold splitRun
  simp only [List.dropWhile_cons_of_pos hc]
  split
  · next d r hr =>
    rw [hr] at hs
    split
    · have := Text.length_dropWhile_le isScalar (d :: r)
      simp only [List.length_cons] at hs this ⊢
      omega
    · exact Nat.lt_succ_of_le hs
  · exact Nat.lt_succ_of_le hs

theorem length_readValue {inner : Option Reader} {s r : List Char} {v : Value}
    (h : readValue inner s = some (v, r)) : r.length < s.length := by
  cases s with
  | nil => simp [readValue] at h
  | cons c s =>
    simp only [readValue, readValueAt] at h
    split at h
    · simp only [Option.map_eq_some_iff, Prod.mk.injEq, Prod.exists] at h
      obtain ⟨t, r, h, _, rfl⟩ := h
      exact Nat.lt_succ_of_lt (length_readText h)
    · split at h
      · obtain ⟨inner, _, h⟩ := Option.bind_eq_some_iff.1 h
        exact Nat.lt_succ_of_lt (length_readItems h)
      · split at h
        · obtain ⟨inner, _, h⟩ := Option.bind_eq_some_iff.1 h
          exact Nat.lt_succ_of_lt (length_readTable h)
        · split at h
          · next hc =>
            simp only [Option.map_eq_some_iff, Prod.mk.injEq] at h
            obtain ⟨_, _, _, rfl⟩ := h
            exact length_splitRun_lt hc s
          · simp at h

/-- The reader of values whose brackets are filled by `inner`. -/
def layerReader (inner : Option Reader) : Reader where
  run := readValue inner
  shorter := length_readValue

/-- The reader of values in which at most `n` brackets are open at a time. -/
def valueReader : (n : Nat) → Reader
  | 0 => layerReader none
  | n + 1 => layerReader (some (valueReader n))

/-! ## Lines -/

/-- The tables read so far. -/
structure Reading where
  /-- The outermost table. -/
  root : Members := []
  /-- The names of the header under which the next line stands. -/
  header : List String := []

/-- Reads a header behind its opening brackets. -/
def readHeader (repeats : Bool) (reading : Reading) (s : List Char) :
    Option (Reading × List Char) :=
  match readKey s with
  | none => none
  | some (k, r) =>
    match (if repeats then r.take 2 = [']', ']'] else r.take 1 = [']'] : Bool) with
    | false => none
    | true =>
      (reading.root.declare repeats k.path k.name).map fun root =>
        (⟨root, k.path ++ [k.name]⟩, r.drop (if repeats then 2 else 1))

/-- Reads what stands on a line. -/
def readLine (reading : Reading) (s : List Char) : Option (Reading × List Char) :=
  match s with
  | '[' :: '[' :: r => readHeader true reading r
  | '[' :: r => readHeader false reading r
  | s =>
    match readPair (valueReader maxDepth) s with
    | none => none
    | some ((k, v), r) =>
      (reading.root.within (Members.put k.path k.name v) reading.header).map fun root =>
        ({ reading with root }, r)

theorem length_readHeader {repeats : Bool} {reading reading' : Reading} {s r : List Char}
    (h : readHeader repeats reading s = some (reading', r)) : r.length < s.length := by
  unfold readHeader at h
  split at h
  · simp at h
  · next h₁ =>
    split at h
    · simp at h
    · simp only [Option.map_eq_some_iff, Prod.mk.injEq] at h
      obtain ⟨_, _, _, rfl⟩ := h
      have := length_readKey h₁
      rw [List.length_drop]
      omega

theorem length_readLine {reading reading' : Reading} {s r : List Char}
    (h : readLine reading s = some (reading', r)) : r.length < s.length := by
  unfold readLine at h
  split at h
  · exact Nat.lt_succ_of_lt (Nat.lt_succ_of_lt (length_readHeader h))
  · exact Nat.lt_succ_of_lt (length_readHeader h)
  · split at h
    · simp at h
    · next h₁ =>
      simp only [Option.map_eq_some_iff, Prod.mk.injEq] at h
      obtain ⟨_, _, _, rfl⟩ := h
      exact length_readPair h₁

/-- Reads all lines. -/
def readLines (reading : Reading) (s : List Char) : Option Members :=
  match skipLines s with
  | [] => some reading.root
  | _ =>
    match _h : readLine reading (skipLines s) with
    | none => none
    | some (reading, r) =>
      match skipTail r with
      | [] => some reading.root
      | _ =>
        match _g : readLineFeed (skipTail r) with
        | none => none
        | some t => readLines reading t
termination_by s.length
decreasing_by
  have h₁ := length_readLine _h
  have h₂ := length_skipLines s
  have h₃ := length_skipTail r
  have h₄ := length_readLineFeed _g
  omega

/-- Reads a text; a byte order mark before it is passed over. -/
def read (s : List Char) : Option Members :=
  match s with
  | '\ufeff' :: s => readLines {} s
  | s => readLines {} s

end Discussion.Toml
