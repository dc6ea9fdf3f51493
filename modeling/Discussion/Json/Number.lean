import Discussion.Data.Basic
import Discussion.Json.Failure
import Discussion.Text.Digits

/-!
# Numbers

A numeral is first taken apart into digits (`Numeral.read`) and then given a value (`Numeral.value`).

A whole number that fits a word, or a negative one that fits a signed word, is an integer. Everything
else is a float, computed from a significand below 2^64 and a power of ten. The significand takes the
digits as long as it stays below 2^64: each digit of the whole part that finds no room counts as a
power of ten, and digits of the fraction that find none are dropped.
-/

namespace Discussion.Json

open Text

/-- The parts of a written number. -/
structure Numeral where
  /-- Whether a minus sign was read. -/
  negative : Bool
  /-- The digits before the point. -/
  whole : List Char
  /-- The digits behind the point, none if there is no point. -/
  fraction : List Char
  /-- Whether the exponent is negative, and its digits, if there is one. -/
  exponent : Option (Bool × List Char)

namespace Numeral

/-- Reads the digits before the point: a zero alone, or digits that do not begin with zero. -/
def readWhole : List Char → Except Failure (List Char × List Char)
  | [] => .error { cause := .endInValue, rest := [] }
  | c :: s =>
    if c = '0' then
      if (s.takeWhile Char.isDigit).isEmpty then .ok (['0'], s)
      else .error { cause := .invalidNumber, rest := s }
    else if c.isDigit then .ok (c :: s.takeWhile Char.isDigit, s.dropWhile Char.isDigit)
    else .error { cause := .invalidNumber, rest := c :: s }

/-- Reads a point with at least one digit behind it, if there is a point. -/
def readFraction : List Char → Except Failure (List Char × List Char)
  | '.' :: s =>
    if (s.takeWhile Char.isDigit).isEmpty then
      .error { cause := if s.isEmpty then .endInValue else .invalidNumber, rest := s }
    else .ok (s.takeWhile Char.isDigit, s.dropWhile Char.isDigit)
  | s => .ok ([], s)

/-- Reads the digits of an exponent; there must be one at least. -/
def readExponentDigits (negative : Bool) (s : List Char) :
    Except Failure (Option (Bool × List Char) × List Char) :=
  if (s.takeWhile Char.isDigit).isEmpty then
    .error { cause := if s.isEmpty then .endInValue else .invalidNumber, rest := s }
  else .ok (some (negative, s.takeWhile Char.isDigit), s.dropWhile Char.isDigit)

/-- Reads an exponent, if there is one. -/
def readExponent : List Char → Except Failure (Option (Bool × List Char) × List Char)
  | [] => .ok (none, [])
  | c :: s =>
    if c = 'e' ∨ c = 'E' then
      match s with
      | '+' :: r => readExponentDigits false r
      | '-' :: r => readExponentDigits true r
      | r => readExponentDigits false r
    else .ok (none, c :: s)

/-- Reads a number behind its sign. -/
def read (negative : Bool) (s : List Char) : Except Failure (Numeral × List Char) :=
  match readWhole s with
  | .error f => .error f
  | .ok (whole, s) =>
    match readFraction s with
    | .error f => .error f
    | .ok (fraction, s) =>
      match readExponent s with
      | .error f => .error f
      | .ok (exponent, s) => .ok (⟨negative, whole, fraction, exponent⟩, s)

/-- Appends digits to `n` as long as the result stays below `limit`, and tells how many found
room. -/
def absorb (limit : Nat) : (n : Nat) → List Char → Nat × Nat
  | n, [] => (n, 0)
  | n, c :: s =>
    let m := n * 10 + digitValue c
    if m < limit then
      let (k, taken) := absorb limit m s
      (k, taken + 1)
    else (n, 0)

/-- A power of ten, rounded to a float. -/
def tenTo (n : Nat) : Float :=
  Float.ofScientific 1 false n

/-- Divides by 10^n, in steps that floats have room for. -/
def shrink (f : Float) (n : Nat) : Float :=
  if n ≤ 308 then f / tenTo n
  else if f == 0 then f
  else shrink (f / tenTo 308) (n - 308)
termination_by n

/-- The float significand · 10^exponent; `none` if it is too great. -/
def scale (significand : Nat) (exponent : Int) : Option Float :=
  let f := (UInt64.ofNat significand).toFloat
  if exponent < 0 then some (shrink f exponent.natAbs)
  else if exponent ≤ 308 then
    let g := f * tenTo exponent.toNat
    if g.isInf then none else some g
  else if f == 0 then some f
  else none

/-- The digits of an exponent that come after those with which it passes the greatest signed word of
32 bits; `none` if it does not pass it. -/
def beyondLimit (n : Nat) : List Char → Option (List Char)
  | [] => none
  | c :: s =>
    let m := n * 10 + digitValue c
    if m < 0x80000000 then beyondLimit m s else some s

/-- The value as a float. It fails with the digits that need not be looked at to see that the number
is too great. -/
def floatValue (n : Numeral) : Except (List Char) Float :=
  let (s, taken) := absorb UInt64.size 0 n.whole
  let (s, takenBehind) := absorb UInt64.size s n.fraction
  let shift : Int := (n.whole.length : Int) - taken - takenBehind
  let signed (f : Float) : Float := if n.negative then -f else f
  let scaled (exponent : Int) : Except (List Char) Float :=
    match scale s (shift + exponent) with
    | some f => .ok (signed f)
    | none => .error []
  match n.exponent with
  | none => scaled 0
  | some (isNegative, ds) =>
    match beyondLimit 0 ds with
    | some unseen => if s ≠ 0 ∧ !isNegative then .error unseen else .ok (signed 0)
    | none =>
      let e := valueOfDigits 10 (ds.map digitValue)
      scaled (if isNegative then -e else e)

/-- The value as an integer, if the number is written as one and has room. -/
def integerValue? (n : Numeral) : Option Int :=
  if n.fraction.isEmpty ∧ n.exponent.isNone then
    let m : Int := valueOfDigits 10 (n.whole.map digitValue)
    if n.negative then
      if 0 < m ∧ m ≤ Data.signedLimit then some (-m) else none
    else if m < UInt64.size then some m else none
  else none

/-- The value of a numeral; see `floatValue` for the failure. -/
def value (n : Numeral) : Except (List Char) Data :=
  match n.integerValue? with
  | some z => .ok (.integer z)
  | none =>
    match n.floatValue with
    | .ok f => .ok (.real f)
    | .error unseen => .error unseen

end Numeral

/-- Reads a number behind its sign. -/
def readNumber (negative : Bool) (s : List Char) : Except Failure (Data × List Char) :=
  match Numeral.read negative s with
  | .error f => .error f
  | .ok (n, r) =>
    match n.value with
    | .ok d => .ok (d, r)
    | .error unseen => .error { cause := .outOfRange, rest := unseen ++ r, seen := 0 }

namespace Numeral

theorem length_readWhole {s d r : List Char} (h : readWhole s = .ok (d, r)) :
    r.length < s.length := by
  cases s with
  | nil => simp [readWhole] at h
  | cons c s =>
    simp only [readWhole] at h
    split at h
    · split at h
      · simp only [Except.ok.injEq, Prod.mk.injEq] at h
        obtain ⟨_, rfl⟩ := h
        exact Nat.lt_succ_self _
      · simp at h
    · split at h
      · simp only [Except.ok.injEq, Prod.mk.injEq] at h
        obtain ⟨_, rfl⟩ := h
        exact Nat.lt_succ_of_le (length_dropWhile_le _ s)
      · simp at h

theorem length_readFraction {s d r : List Char} (h : readFraction s = .ok (d, r)) :
    r.length ≤ s.length := by
  unfold readFraction at h
  split at h
  · next s =>
    split at h
    · simp at h
    · simp only [Except.ok.injEq, Prod.mk.injEq] at h
      obtain ⟨_, rfl⟩ := h
      exact Nat.le_succ_of_le (length_dropWhile_le _ s)
  · simp only [Except.ok.injEq, Prod.mk.injEq] at h
    obtain ⟨_, rfl⟩ := h
    exact Nat.le_refl _

theorem length_readExponentDigits {negative : Bool} {s r : List Char}
    {e : Option (Bool × List Char)} (h : readExponentDigits negative s = .ok (e, r)) :
    r.length ≤ s.length := by
  unfold readExponentDigits at h
  split at h
  · simp at h
  · simp only [Except.ok.injEq, Prod.mk.injEq] at h
    obtain ⟨_, rfl⟩ := h
    exact length_dropWhile_le _ s

theorem length_readExponent {s r : List Char} {e : Option (Bool × List Char)}
    (h : readExponent s = .ok (e, r)) : r.length ≤ s.length := by
  cases s with
  | nil =>
    simp only [readExponent, Except.ok.injEq, Prod.mk.injEq] at h
    obtain ⟨_, rfl⟩ := h
    exact Nat.le_refl _
  | cons c s =>
    simp only [readExponent] at h
    split at h
    · split at h
      · exact Nat.le_trans (length_readExponentDigits h) (by simp; omega)
      · exact Nat.le_trans (length_readExponentDigits h) (by simp; omega)
      · exact Nat.le_trans (length_readExponentDigits h) (by simp)
    · simp only [Except.ok.injEq, Prod.mk.injEq] at h
      obtain ⟨_, rfl⟩ := h
      exact Nat.le_refl _

theorem length_read {negative : Bool} {s r : List Char} {n : Numeral}
    (h : read negative s = .ok (n, r)) : r.length < s.length := by
  unfold read at h
  split at h
  · simp at h
  · next h₁ =>
    split at h
    · simp at h
    · next h₂ =>
      split at h
      · simp at h
      · next h₃ =>
        simp only [Except.ok.injEq, Prod.mk.injEq] at h
        obtain ⟨_, rfl⟩ := h
        have := length_readWhole h₁
        have := length_readFraction h₂
        have := length_readExponent h₃
        omega

end Numeral

theorem length_readNumber {negative : Bool} {s r : List Char} {d : Data}
    (h : readNumber negative s = .ok (d, r)) : r.length < s.length := by
  unfold readNumber at h
  split at h
  · simp at h
  · next h₁ =>
    split at h
    · simp only [Except.ok.injEq, Prod.mk.injEq] at h
      obtain ⟨_, rfl⟩ := h
      exact Numeral.length_read h₁
    · simp at h

end Discussion.Json
