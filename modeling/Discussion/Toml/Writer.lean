import Discussion.Data.Basic
import Discussion.Text.Quoted

/-!
# Writing TOML

Members are written one to a line, and lists of records as repeated tables.

There are four ways to mark a text: one quotation mark or one apostrophe on either side, or three of
them. A text is written in the first way that needs no escapes for it, in the order quotation mark,
apostrophe, three quotation marks, three apostrophes. If every way needs escapes, they stand between
quotation marks, one or, where there are line feeds, three. A tabulator between quotation marks is
written as an escape, but is no reason to choose another way.
-/

namespace Discussion.Toml

open Text

/-- The digits of a number in base 16, in upper case and with zeros in front, four in all. -/
def fourHex (n : Nat) : List Char :=
  let ds := (Nat.toDigits 16 n).map Char.toUpper
  List.replicate (4 - ds.length) '0' ++ ds

/-- How a character is written between quotation marks. -/
def writeChar (c : Char) : List Char :=
  match c with
  | '\x08' => ['\\', 'b']
  | '\t' => ['\\', 't']
  | '\n' => ['\\', 'n']
  | '\x0c' => ['\\', 'f']
  | '\r' => ['\\', 'r']
  | '"' => ['\\', '"']
  | '\\' => ['\\', '\\']
  | c => if c < ' ' ∨ c = '\x7f' then '\\' :: 'u' :: fourHex c.toNat else [c]

/-- The characters of a text between three quotation marks, given the number of marks written just
before. Line feeds stand for themselves, and so do quotation marks as long as no three of them meet. -/
def writeLong (marks : Nat) : List Char → List Char
  | [] => []
  | c :: s =>
    if c = '"' ∧ marks < 2 then c :: writeLong (marks + 1) s
    else if c = '\n' then c :: writeLong 0 s
    else writeChar c ++ writeLong 0 s

/-- Whether a character is written as an escape in every text that has it. -/
def isEscaped (c : Char) : Bool :=
  (c < ' ' && c ≠ '\t' && c ≠ '\n') || c == '\x7f'

/-- Whether three of a mark stand next to each other. -/
def hasThree (mark : Char) : List Char → Bool
  | [] => false
  | c :: s => (c :: s).take 3 == [mark, mark, mark] || hasThree mark s

/-- The ways to mark a text. -/
inductive Marks where
  | basic
  | literal
  | longBasic
  | longLiteral
deriving DecidableEq, Repr

namespace Marks

/-- Whether a text needs no escapes between the marks, apart from tabulators. -/
def suit (s : List Char) : Marks → Bool
  | basic => !s.any (fun c => isEscaped c || c == '\n' || c == '"' || c == '\\')
  | literal => !s.any (fun c => isEscaped c || c == '\n' || c == '\'')
  | longBasic => !s.any (fun c => isEscaped c || c == '\\') && !hasThree '"' s
  | longLiteral => !s.any isEscaped && !hasThree '\'' s

/-- The marks that a text is written with. -/
def ofText (s : List Char) : Marks :=
  ([basic, literal, longBasic, longLiteral].find? (suit s)).getD
    (if s.contains '\n' then longBasic else basic)

/-- The line feed behind three marks that open a text of several lines. -/
def lead (s : List Char) : List Char :=
  if s.contains '\n' then ['\n'] else []

/-- A text between the marks. -/
def write (s : List Char) : Marks → List Char
  | basic => '"' :: (s.flatMap writeChar ++ ['"'])
  | literal => '\'' :: (s ++ ['\''])
  | longBasic => ['"', '"', '"'] ++ lead s ++ writeLong 0 s ++ ['"', '"', '"']
  | longLiteral => ['\'', '\'', '\''] ++ lead s ++ s ++ ['\'', '\'', '\'']

end Marks

/-- A text with its marks. -/
def writeText (text : String) : List Char :=
  (Marks.ofText text.toList).write text.toList

/-- A value on the line of its key. Only integers that fit a signed word and texts are written. -/
def writeAtom? : Data → Option (List Char)
  | .integer z => if Data.fitsSigned z then some (toString z).toList else none
  | .text s => some (writeText s)
  | _ => none

/-- The lines of the members of a table. Names are written as they are. -/
def writeMembers? : List (String × Data) → Option (List Char)
  | [] => some []
  | (name, d) :: ms => do
    let value ← writeAtom? d
    let rest ← writeMembers? ms
    some (name.toList ++ [' ', '=', ' '] ++ value ++ '\n' :: rest)

/-- The text of a list of tables under a name. -/
def writeTables? (name : String) : List (List (String × Data)) → Option (List Char)
  | [] => some (name.toList ++ [' ', '=', ' ', '[', ']', '\n'])
  | tables => do
    let parts ← tables.mapM fun ms =>
      (writeMembers? ms).map (['[', '['] ++ name.toList ++ [']', ']', '\n'] ++ ·)
    some (parts.intersperse ['\n']).flatten

end Discussion.Toml
