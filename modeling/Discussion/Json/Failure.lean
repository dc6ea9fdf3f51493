/-!
# Where and why reading stops

A failure says what was found wrong and how far the reader had looked. The place is given by the
rest of the text and the number of bytes of that rest that had already been looked at; a position in
lines and columns is worked out only when it is wanted.
-/

namespace Discussion.Json

/-- What can be wrong with a text. -/
inductive Cause where
  | endInValue
  | endInText
  | endInList
  | endInRecord
  | expectedWord
  | expectedValue
  | expectedListSeparator
  | expectedRecordSeparator
  | expectedColon
  | expectedKey
  | trailingComma
  | trailingText
  | tooDeep
  | invalidNumber
  | outOfRange
  | controlCharacter
  | invalidEscape
  | loneSurrogate
  | unfinishedEscape
deriving DecidableEq, Repr

namespace Cause

/-- The wording of a cause. -/
def message : Cause → String
  | endInValue => "EOF while parsing a value"
  | endInText => "EOF while parsing a string"
  | endInList => "EOF while parsing a list"
  | endInRecord => "EOF while parsing an object"
  | expectedWord => "expected ident"
  | expectedValue => "expected value"
  | expectedListSeparator => "expected `,` or `]`"
  | expectedRecordSeparator => "expected `,` or `\x7d`"
  | expectedColon => "expected `:`"
  | expectedKey => "key must be a string"
  | trailingComma => "trailing comma"
  | trailingText => "trailing characters"
  | tooDeep => "recursion limit exceeded"
  | invalidNumber => "invalid number"
  | outOfRange => "number out of range"
  | controlCharacter => "control character (\\u0000-\\u001F) found while parsing a string"
  | invalidEscape => "invalid escape"
  | loneSurrogate => "lone leading surrogate in hex escape"
  | unfinishedEscape => "unexpected end of hex escape"

/-- Whether the text ended too early. -/
def isEnd : Cause → Bool
  | endInValue | endInText | endInList | endInRecord => true
  | _ => false

end Cause

/-- A place in a text, as editors count it. -/
structure Position where
  /-- The number of line feeds before the place, plus one. -/
  line : Nat
  /-- The number of bytes since the last line feed. -/
  column : Nat
deriving DecidableEq, Repr

namespace Position

/-- The start of a text. -/
def start : Position :=
  ⟨1, 0⟩

/-- The place behind the first `bytes` bytes of a text that begins at `p`. -/
def after (p : Position) (bytes : Nat) : List Char → Position
  | [] => p
  | c :: s =>
    if bytes = 0 then p
    else if c = '\n' then after ⟨p.line + 1, 0⟩ (bytes - 1) s
    else
      let n := min bytes c.utf8Size
      after ⟨p.line, p.column + n⟩ (bytes - n) s

end Position

/-- A failed reading. -/
structure Failure where
  /-- What is wrong. -/
  cause : Cause
  /-- What had not been accepted yet. -/
  rest : List Char
  /-- The number of bytes of the rest that had been looked at; usually the one that did not fit. -/
  seen : Nat := 1
deriving DecidableEq, Repr

/-- The number of bytes of a text. -/
def byteSize (s : List Char) : Nat :=
  s.foldl (fun n c => n + c.utf8Size) 0

namespace Failure

/-- The place up to which `text`, whose reading failed, had been looked at. -/
def position (f : Failure) (text : List Char) : Position :=
  Position.start.after (byteSize text - byteSize f.rest + min f.seen (byteSize f.rest)) text

/-- The wording of a failure to read `text`. -/
def message (f : Failure) (text : List Char) : String :=
  let p := f.position text
  f.cause.message ++ " at line " ++ toString p.line ++ " column " ++ toString p.column

end Failure

end Discussion.Json
