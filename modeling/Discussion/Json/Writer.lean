import Discussion.Data.Basic
import Discussion.Decimal.Shortest
import Discussion.Text.Quoted

/-!
# Writing values

A value is written on one line without spaces (`compact`), or with every item and member on a line of
its own (`pretty`).
-/

namespace Discussion.Json

open Text

/-- Two digits in base 16. -/
def twoHex (n : Nat) : List Char :=
  [Nat.digitChar (n / 16), Nat.digitChar (n % 16)]

/-- How a character is written between quotation marks. -/
def writeChar (c : Char) : List Char :=
  match c with
  | '"' => ['\\', '"']
  | '\\' => ['\\', '\\']
  | '\x08' => ['\\', 'b']
  | '\x0c' => ['\\', 'f']
  | '\n' => ['\\', 'n']
  | '\r' => ['\\', 'r']
  | '\t' => ['\\', 't']
  | c => if c < ' ' then ['\\', 'u', '0', '0'] ++ twoHex c.toNat else [c]

/-- A text between quotation marks. -/
def writeText (s : String) : List Char :=
  '"' :: (s.toList.flatMap writeChar ++ ['"'])

/-- A value without brackets. -/
def writeAtom : Data → List Char
  | .null => ['n', 'u', 'l', 'l']
  | .boolean true => ['t', 'r', 'u', 'e']
  | .boolean false => ['f', 'a', 'l', 's', 'e']
  | .integer z => (toString z).toList
  | .real f => (realText f).toList
  | .text s => writeText s
  | .list _ => []
  | .record _ => []

mutual

/-- A value on one line. -/
def compact : Data → List Char
  | .list ds => '[' :: (compactItems ds ++ [']'])
  | .record ms => '\x7b' :: (compactMembers ms ++ ['\x7d'])
  | d => writeAtom d

/-- Values with commas between them. -/
def compactItems : List Data → List Char
  | [] => []
  | [d] => compact d
  | d :: e :: ds => compact d ++ ',' :: compactItems (e :: ds)

/-- Members with commas between them. -/
def compactMembers : List (String × Data) → List Char
  | [] => []
  | [(name, d)] => writeText name ++ ':' :: compact d
  | (name, d) :: m :: ms => writeText name ++ ':' :: (compact d ++ ',' :: compactMembers (m :: ms))

end

/-- A line feed and the spaces of the given level. -/
def newLine (level : Nat) : List Char :=
  '\n' :: List.replicate (2 * level) ' '

mutual

/-- A value that begins at the given level, with every item and member on a line of its own. Brackets
with nothing in them stay together. -/
def pretty (level : Nat) : Data → List Char
  | .list [] => ['[', ']']
  | .list (d :: ds) => '[' :: (prettyItems (level + 1) (d :: ds) ++ newLine level ++ [']'])
  | .record [] => ['\x7b', '\x7d']
  | .record (m :: ms) =>
    '\x7b' :: (prettyMembers (level + 1) (m :: ms) ++ newLine level ++ ['\x7d'])
  | d => writeAtom d

/-- Values on lines of their own, with commas between them. -/
def prettyItems (level : Nat) : List Data → List Char
  | [] => []
  | [d] => newLine level ++ pretty level d
  | d :: e :: ds => newLine level ++ pretty level d ++ ',' :: prettyItems level (e :: ds)

/-- Members on lines of their own, with commas between them. -/
def prettyMembers (level : Nat) : List (String × Data) → List Char
  | [] => []
  | [(name, d)] => newLine level ++ writeText name ++ ':' :: ' ' :: pretty level d
  | (name, d) :: m :: ms =>
    newLine level ++ writeText name ++
      ':' :: ' ' :: (pretty level d ++ ',' :: prettyMembers level (m :: ms))

end

/-- The text of a value on one line. -/
def compactText (d : Data) : String :=
  String.ofList (compact d)

/-- The text of a value on many lines. -/
def prettyText (d : Data) : String :=
  String.ofList (pretty 0 d)

end Discussion.Json
