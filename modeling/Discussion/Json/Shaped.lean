import Discussion.Decimal.Shortest
import Discussion.Json.Skip
import Discussion.Text.Quoted

/-!
# Reading records of a known shape

When it is known which members a record has, each value is checked where it stands, and a value that
does not fit is reported before anything behind it is looked at. Members that the shape does not name
are passed over.

A record may also be written as a list of its values, in the order of the shape; values at its end may
be left out.
-/

namespace Discussion

/-- What a value looks like from outside. -/
def Data.describe : Data → String
  | null => "null"
  | boolean b => "boolean `" ++ (if b then "true" else "false") ++ "`"
  | integer z => "integer `" ++ toString z ++ "`"
  | real f => "floating point `" ++ realText f ++ "`"
  | text s => "string " ++ Text.quote s
  | list _ => "sequence"
  | record _ => "map"

namespace Json

/-- What a value may be. -/
inductive Kind where
  /-- An integer from 0 up. -/
  | natural
  /-- Any text. -/
  | text
  /-- One of the given words. -/
  | choice (words : List String)

/-- The place of a value in a shape. -/
structure Slot where
  /-- The name by which the value is known. -/
  name : String
  /-- Other names that are accepted. -/
  aliases : List String := []
  /-- What the value may be. -/
  kind : Kind
  /-- Whether the value may be null. -/
  nullable : Bool := false
  /-- Whether the value must be given. -/
  required : Bool := false

/-- Whether the value may stand under a name. -/
def Slot.accepts (slot : Slot) (name : String) : Bool :=
  name == slot.name || slot.aliases.contains name

/-- The members of a record. -/
structure Shape where
  /-- What such a record is called. -/
  label : String
  /-- The places of its values. -/
  slots : List Slot

/-- How well-formed data can fail to have a shape. -/
inductive Misfit where
  | wrongType (found : Data) (expected : String)
  | wrongValue (found : Data) (expected : String)
  | wrongLength (found : Nat) (expected : String)
  | unknownWord (found : String) (expected : List String)
  | missing (name : String)
  | repeated (name : String)

/-- The wording of a misfit. -/
def Misfit.message : Misfit → String
  | wrongType found expected => "invalid type: " ++ found.describe ++ ", expected " ++ expected
  | wrongValue found expected => "invalid value: " ++ found.describe ++ ", expected " ++ expected
  | wrongLength found expected => "invalid length " ++ toString found ++ ", expected " ++ expected
  | unknownWord found expected =>
    "unknown variant `" ++ found ++ "`, expected " ++
      String.intercalate " or " (expected.map fun w => "`" ++ w ++ "`")
  | missing name => "missing field `" ++ name ++ "`"
  | repeated name => "duplicate field `" ++ name ++ "`"

/-- Why a text does not hold a record of a shape. -/
inductive Problem where
  /-- It is not well-formed. -/
  | malformed (failure : Failure)
  /-- What it holds does not have the shape. -/
  | misfit (misfit : Misfit)

/-- The wording of a problem, without its place. -/
def Problem.message : Problem → String
  | malformed f => f.cause.message
  | misfit m => m.message

/-- Failures of well-formedness among the problems. -/
def Problem.lift {α : Type} : Except Failure α → Except Problem α
  | .error f => .error (.malformed f)
  | .ok a => .ok a

/-- Reads as much of the value that begins with `c` as is needed to tell what it is. -/
def glimpse (c : Char) (s : List Char) : Except Failure (Data × List Char) :=
  if c = '[' then .ok (.list [], s)
  else if c = '\x7b' then .ok (.record [], s)
  else readValue none c s

/-- Accepts a value that fits the kind. -/
def Kind.check : Kind → Data → Except Misfit Data
  | natural, .integer z => if z < 0 then .error (.wrongValue (.integer z) "u64") else .ok (.integer z)
  | natural, d => .error (.wrongType d "u64")
  | text, .text t => .ok (.text t)
  | text, d => .error (.wrongType d "a string")
  | choice words, .text t => if t ∈ words then .ok (.text t) else .error (.unknownWord t words)
  | choice _, d => .error (.wrongType d "variant identifier")

/-- Reads the value that begins with `c` and checks that it fits the kind. -/
def readChecked (k : Kind) (c : Char) (s : List Char) : Except Problem (Data × List Char) :=
  match glimpse c s with
  | .error f => .error (.malformed f)
  | .ok (d, r) =>
    match k.check d with
    | .error m => .error (.misfit m)
    | .ok d => .ok (d, r)

/-- Reads a null. -/
def readNull (s : List Char) : Except Problem (List Char) :=
  match skipSpace s with
  | [] => .error (.malformed { cause := .endInValue, rest := [] })
  | c :: r =>
    match glimpse c r with
    | .error f => .error (.malformed f)
    | .ok (.null, r) => .ok r
    | .ok (d, _) => .error (.misfit (.wrongType d "unit"))

/-- Reads the end of a record that has one member. -/
def closeTagged (s : List Char) : Except Problem (List Char) :=
  match skipSpace s with
  | [] => .error (.malformed { cause := .endInRecord, rest := [] })
  | '\x7d' :: r => .ok r
  | t => .error (.malformed { cause := .expectedValue, rest := t })

/-- Reads one of the given words. -/
def readChoice (words : List String) (s : List Char) : Except Problem (Data × List Char) :=
  match skipSpace s with
  | [] => .error (.malformed { cause := .endInValue, rest := [] })
  | c :: r => readChecked (.choice words) c r

/-- Reads the inside of a record that has a word for its only name, and null for its value. -/
def readTagged (words : List String) (s : List Char) : Except Problem (Data × List Char) :=
  match readChoice words s with
  | .error p => .error p
  | .ok (d, r) =>
    match readColon r with
    | .error f => .error (.malformed f)
    | .ok r =>
      match readNull r with
      | .error p => .error p
      | .ok r =>
        match closeTagged r with
        | .error p => .error p
        | .ok r => .ok (d, r)

/-- Reads a value of the given kind that begins with `c`. -/
def Kind.read (k : Kind) (c : Char) (s : List Char) : Except Problem (Data × List Char) :=
  match k with
  | choice words =>
    if c = '"' then readChecked k c s
    else if c = '\x7b' then readTagged words s
    else .error (.malformed { cause := .expectedValue, rest := c :: s })
  | k => readChecked k c s

/-- Reads the value of a slot. -/
def Slot.read (slot : Slot) (s : List Char) : Except Problem (Data × List Char) :=
  match skipSpace s with
  | [] => .error (.malformed { cause := .endInValue, rest := [] })
  | c :: r =>
    if slot.nullable ∧ c = 'n' then Problem.lift (readConstant ['u', 'l', 'l'] .null r)
    else slot.kind.read c r

/-- Reads the inside of a list of values in the order of the slots. -/
def readSlots (shape : Shape) (isFirst : Bool) :
    List Slot → List Char → Except Problem (List (String × Data) × List Char)
  | [], s =>
    match closeList s with
    | .error f => .error (.malformed f)
    | .ok r => .ok ([], r)
  | slot :: slots, s =>
    match nextItem isFirst s with
    | .error f => .error (.malformed f)
    | .ok (.done r) =>
      if slot.required then
        .error (.misfit (.wrongLength (shape.slots.length - slots.length - 1)
          (shape.label ++ " with " ++ toString shape.slots.length ++ " elements")))
      else .ok ([], r)
    | .ok (.more t) =>
      match slot.read t with
      | .error p => .error p
      | .ok (d, r) =>
        match readSlots shape false slots r with
        | .error p => .error p
        | .ok (ms, r) => .ok ((slot.name, d) :: ms, r)

/-- Reads what stands behind a name: the value of its slot, which must not have been given before, or
a value that is passed over. -/
def readMember (slots : List Slot) (found : List (String × Data)) (name : String)
    (s : List Char) : Except Problem (List (String × Data) × List Char) :=
  match slots.find? (·.accepts name) with
  | none =>
    match readColon s with
    | .error f => .error (.malformed f)
    | .ok r =>
      match skip r with
      | .error f => .error (.malformed f)
      | .ok r => .ok (found, r)
  | some slot =>
    if found.any (·.1 == slot.name) then .error (.misfit (.repeated slot.name))
    else
      match readColon s with
      | .error f => .error (.malformed f)
      | .ok r =>
        match slot.read r with
        | .error p => .error p
        | .ok (d, r) => .ok ((slot.name, d) :: found, r)

theorem Problem.lift_eq_ok {α : Type} {x : Except Failure α} {a : α}
    (h : Problem.lift x = .ok a) : x = .ok a := by
  cases x with
  | error => simp [lift] at h
  | ok => simpa [lift] using h

theorem length_glimpse {c : Char} {s r : List Char} {d : Data} (h : glimpse c s = .ok (d, r)) :
    r.length ≤ s.length := by
  unfold glimpse at h
  split at h
  · cases h
    exact Nat.le_refl _
  · split at h
    · cases h
      exact Nat.le_refl _
    · exact length_readValue h

theorem length_readChecked {k : Kind} {c : Char} {s r : List Char} {d : Data}
    (h : readChecked k c s = .ok (d, r)) : r.length ≤ s.length := by
  unfold readChecked at h
  split at h
  · simp at h
  · next h₁ =>
    split at h
    · simp at h
    · cases h
      exact length_glimpse h₁

theorem length_readNull {s r : List Char} (h : readNull s = .ok r) : r.length ≤ s.length := by
  have hs := length_skipSpace s
  unfold readNull at h
  split at h
  · simp at h
  · next hr =>
    rw [hr, List.length_cons] at hs
    split at h
    · simp at h
    · next h₁ =>
      cases h
      exact Nat.le_trans (length_glimpse h₁) (Nat.le_of_succ_le hs)
    · simp at h

theorem length_closeTagged {s r : List Char} (h : closeTagged s = .ok r) :
    r.length ≤ s.length := by
  have hs := length_skipSpace s
  unfold closeTagged at h
  split at h
  · simp at h
  · next hr =>
    rw [hr, List.length_cons] at hs
    cases h
    omega
  · simp at h

theorem length_readChoice {words : List String} {s r : List Char} {d : Data}
    (h : readChoice words s = .ok (d, r)) : r.length ≤ s.length := by
  have hs := length_skipSpace s
  unfold readChoice at h
  split at h
  · simp at h
  · next hr =>
    rw [hr, List.length_cons] at hs
    exact Nat.le_trans (length_readChecked h) (Nat.le_of_succ_le hs)

theorem length_readTagged {words : List String} {s r : List Char} {d : Data}
    (h : readTagged words s = .ok (d, r)) : r.length ≤ s.length := by
  unfold readTagged at h
  split at h
  · simp at h
  · next h₁ =>
    split at h
    · simp at h
    · next h₂ =>
      split at h
      · simp at h
      · next h₃ =>
        split at h
        · simp at h
        · next h₄ =>
          cases h
          have := length_readChoice h₁
          have := length_readColon h₂
          have := length_readNull h₃
          have := length_closeTagged h₄
          omega

theorem Kind.length_read {k : Kind} {c : Char} {s r : List Char} {d : Data}
    (h : k.read c s = .ok (d, r)) : r.length ≤ s.length := by
  unfold Kind.read at h
  split at h
  · split at h
    · exact length_readChecked h
    · split at h
      · exact length_readTagged h
      · simp at h
  · exact length_readChecked h

theorem Slot.length_read {slot : Slot} {s r : List Char} {d : Data}
    (h : slot.read s = .ok (d, r)) : r.length < s.length := by
  have hs := length_skipSpace s
  unfold Slot.read at h
  split at h
  · simp at h
  · next hr =>
    rw [hr, List.length_cons] at hs
    refine Nat.lt_of_le_of_lt ?_ hs
    split at h
    · exact length_readConstant (Problem.lift_eq_ok h)
    · exact Kind.length_read h

theorem length_readMember {slots : List Slot} {found ms : List (String × Data)} {name : String}
    {s r : List Char} (h : readMember slots found name s = .ok (ms, r)) :
    r.length ≤ s.length := by
  unfold readMember at h
  split at h
  · split at h
    · simp at h
    · next h₁ =>
      split at h
      · simp at h
      · next h₂ =>
        cases h
        exact Nat.le_trans (Nat.le_of_lt (length_skip h₂)) (length_readColon h₁)
  · split at h
    · simp at h
    · split at h
      · simp at h
      · next h₁ =>
        split at h
        · simp at h
        · next h₂ =>
          cases h
          exact Nat.le_trans (Nat.le_of_lt (Slot.length_read h₂)) (length_readColon h₁)

/-- Reads the members of a record and its closing bracket, given those that were read before. -/
def readFields (slots : List Slot) (isFirst : Bool) (found : List (String × Data))
    (s : List Char) : Except Problem (List (String × Data) × List Char) :=
  match _h : nextMember isFirst s with
  | .error f => .error (.malformed f)
  | .ok (.done r) =>
    match slots.find? fun slot => slot.required && !found.any (·.1 == slot.name) with
    | some slot => .error (.misfit (.missing slot.name))
    | none => .ok (found.reverse, r)
  | .ok (.more t) =>
    match _n : readText t with
    | .error f => .error (.malformed f)
    | .ok (name, t) =>
      match _g : readMember slots found name t with
      | .error p => .error p
      | .ok (found, r) => readFields slots false found r
termination_by s.length
decreasing_by
  have h₁ := length_nextMember _h
  have h₂ := length_readText _n
  have h₃ := length_readMember _g
  simp only [Next.rest] at h₁
  omega

/-- Reads the members of the record of a shape at the front of a text. -/
def Shape.readFront (shape : Shape) (s : List Char) :
    Except Problem (List (String × Data) × List Char) :=
  match skipSpace s with
  | [] => .error (.malformed { cause := .endInValue, rest := [] })
  | c :: r =>
    if c = '[' then readSlots shape true shape.slots r
    else if c = '\x7b' then readFields shape.slots true [] r
    else
      match glimpse c r with
      | .error f => .error (.malformed f)
      | .ok (d, _) => .error (.misfit (.wrongType d shape.label))

/-- Reads a text that holds a record of a shape and nothing else. -/
def Shape.read (shape : Shape) (s : List Char) : Except Problem Data :=
  match shape.readFront s with
  | .error p => .error p
  | .ok (ms, r) =>
    match readEnd r with
    | .error f => .error (.malformed f)
    | .ok () => .ok (.record ms)

end Json

end Discussion
