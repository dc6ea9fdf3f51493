import Discussion.Text.Digits
import Discussion.Toml.Value

/-!
# Numbers, words and moments

A value without brackets or quotation marks is first read as the longest run of the characters that can
occur in one, and then the whole run has to be a word, a number or a moment.
-/

namespace Discussion.Toml

open Text

/-! ## Integers -/

/-- The digits of a run in which single underscores may stand between digits. -/
def ungroup (isDigit : Char → Bool) : List Char → Option (List Char)
  | [] => none
  | [c] => if isDigit c then some [c] else none
  | c :: '_' :: s => if isDigit c then (ungroup isDigit s).map (c :: ·) else none
  | c :: d :: s => if isDigit c then (ungroup isDigit (d :: s)).map (c :: ·) else none

/-- A sign, and what follows it. -/
def unsign : List Char → Bool × List Char
  | '-' :: s => (true, s)
  | '+' :: s => (false, s)
  | s => (false, s)

/-- The digits of a whole number, which begin with zero only if there is no other digit. -/
def wholeDigits? (s : List Char) : Option (List Char) :=
  match ungroup Char.isDigit s with
  | some ('0' :: _ :: _) => none
  | ds => ds

/-- The value of digits in base 10. -/
def decimalValue (ds : List Char) : Nat :=
  valueOfDigits 10 (ds.map digitValue)

/-- An integer, if it fits a signed word. -/
def fitting? (z : Int) : Option Value :=
  if Data.fitsSigned z then some (.integer z) else none

/-- An integer in a base other than ten, from the run behind its first two characters. -/
def basedInteger? (base : Nat) (s : List Char) : Option Value := do
  let ds ← ungroup (fun c => (hexValue? c).any (· < base)) s
  let ns ← ds.mapM hexValue?
  fitting? (valueOfDigits base ns)

/-- An integer. -/
def integer? (s : List Char) : Option Value :=
  match s with
  | '0' :: 'x' :: s => basedInteger? 16 s
  | '0' :: 'o' :: s => basedInteger? 8 s
  | '0' :: 'b' :: s => basedInteger? 2 s
  | s => do
    let (negative, s) := unsign s
    let ds ← wholeDigits? s
    fitting? (if negative then -(decimalValue ds : Int) else decimalValue ds)

/-! ## Floats -/

/-- The float nearest to n · 10^exponent. Numbers beyond the range of floats are not worked out. -/
def toReal (n : Nat) (exponent : Int) : Float :=
  let lead := exponent + (Nat.toDigits 10 n).length
  if n = 0 ∨ lead < -400 then 0
  else if 400 < lead then 1 / 0
  else if exponent < 0 then Float.ofScientific n true exponent.natAbs
  else Float.ofScientific n false exponent.toNat

/-- The parts of a run before and behind the first character with a property. -/
def splitAt? (p : Char → Bool) (s : List Char) : List Char × Option (List Char) :=
  match s.dropWhile fun c => !p c with
  | [] => (s, none)
  | _ :: r => (s.takeWhile fun c => !p c, some r)

/-- An exponent, signed and grouped. -/
def exponent? (s : List Char) : Option Int := do
  let (negative, s) := unsign s
  let ds ← ungroup Char.isDigit s
  some (if negative then -(decimalValue ds : Int) else decimalValue ds)

/-- A float in digits, with a fraction or an exponent or both. A positive one has to be in range. -/
def decimal? (s : List Char) : Option Value := do
  let (negative, s) := unsign s
  let (s, exponent) := splitAt? (fun c => c == 'e' || c == 'E') s
  let (whole, fraction) := splitAt? (· == '.') s
  if exponent.isNone ∧ fraction.isNone then none
  else
    let whole ← wholeDigits? whole
    let fraction ← match fraction with
      | none => some []
      | some f => ungroup Char.isDigit f
    let e ← match exponent with
      | none => some 0
      | some e => exponent? e
    let x := toReal (decimalValue (whole ++ fraction)) (e - fraction.length)
    if negative then some (.real (-x))
    else if x.isInf then none
    else some (.real x)

/-- The words for floats without digits. -/
def unbounded? (s : List Char) : Option Value :=
  let (negative, s) := unsign s
  let signed (x : Float) : Value := .real (if negative then -x else x)
  match s with
  | ['i', 'n', 'f'] => some (signed (1 / 0))
  | ['n', 'a', 'n'] => some (signed (0 / 0))
  | _ => none

/-! ## Moments -/

/-- Reads a number of exactly `n` digits. -/
def readFixed (n : Nat) (s : List Char) : Option (Nat × List Char) :=
  let ds := s.take n
  if ds.length = n ∧ ds.all Char.isDigit then some (decimalValue ds, s.drop n) else none

/-- Reads the given character. -/
def readMark (c : Char) : List Char → Option (List Char)
  | [] => none
  | d :: s => if d = c then some s else none

/-- The number of days of a month. -/
def daysOf (year month : Nat) : Nat :=
  if month = 2 then if year % 4 = 0 ∧ (year % 100 ≠ 0 ∨ year % 400 = 0) then 29 else 28
  else if month = 4 ∨ month = 6 ∨ month = 9 ∨ month = 11 then 30
  else 31

/-- Passes over a date of the calendar. -/
def readDate (s : List Char) : Option (List Char) := do
  let (year, s) ← readFixed 4 s
  let s ← readMark '-' s
  let (month, s) ← readFixed 2 s
  let s ← readMark '-' s
  let (day, s) ← readFixed 2 s
  if 1 ≤ month ∧ month ≤ 12 ∧ 1 ≤ day ∧ day ≤ daysOf year month then some s else none

/-- Passes over a fraction of a second, if there is one. -/
def readSubsecond : List Char → Option (List Char)
  | '.' :: s => if (s.takeWhile Char.isDigit).isEmpty then none else some (s.dropWhile Char.isDigit)
  | s => some s

/-- Passes over a time of day; a minute may have a leap second. -/
def readTime (s : List Char) : Option (List Char) := do
  let (hour, s) ← readFixed 2 s
  let s ← readMark ':' s
  let (minute, s) ← readFixed 2 s
  let s ← readMark ':' s
  let (second, s) ← readFixed 2 s
  if hour ≤ 23 ∧ minute ≤ 59 ∧ second ≤ 60 then readSubsecond s else none

/-- Whether a run is nothing or a distance from universal time. -/
def isOffset : List Char → Bool
  | [] => true
  | ['Z'] => true
  | ['z'] => true
  | c :: s =>
    (c == '+' || c == '-') &&
      (match readFixed 2 s with
        | some (hour, ':' :: s) =>
          match readFixed 2 s with
          | some (minute, []) => hour ≤ 23 && minute ≤ 59
          | _ => false
        | _ => false)

/-- Whether a run is a date and nothing else. -/
def isDate (s : List Char) : Bool :=
  readDate s == some []

/-- Whether a run is a date, a time of day, or a date with a time. -/
def isMoment (s : List Char) : Bool :=
  match readDate s with
  | some [] => true
  | some (c :: s) => (c == 'T' || c == 't' || c == ' ') && (readTime s).any isOffset
  | none => readTime s == some []

/-! ## Runs -/

/-- Whether a character can occur in a word, a number or a moment. -/
def isScalar (c : Char) : Bool :=
  c.isAlphanum || c == '_' || c == '+' || c == '-' || c == ':' || c == '.'

/-- What a run stands for. -/
def scalar? (s : List Char) : Option Value :=
  match s with
  | ['t', 'r', 'u', 'e'] => some (.boolean true)
  | ['f', 'a', 'l', 's', 'e'] => some (.boolean false)
  | s =>
    if isMoment s then some .moment
    else (integer? s).or ((decimal? s).or (unbounded? s))

/-- Splits off the run at the front of a text. A blank between a date and a digit belongs to the
run. -/
def splitRun (s : List Char) : List Char × List Char :=
  let run := s.takeWhile isScalar
  match s.dropWhile isScalar with
  | ' ' :: d :: r =>
    if isDate run ∧ d.isDigit then
      (run ++ ' ' :: (d :: r).takeWhile isScalar, (d :: r).dropWhile isScalar)
    else (run, ' ' :: d :: r)
  | r => (run, r)

end Discussion.Toml
