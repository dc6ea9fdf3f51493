import Discussion.Text.Extending
import Discussion.Text.Printable

/-!
# Quoted text

Text as it is shown to a reader who has to see exactly where it begins and ends: between quotation
marks, with an escape for each character that would not show.
-/

namespace Discussion.Text

/-- The digits of a number in base 16, in lower case. -/
def hex (n : Nat) : List Char :=
  Nat.toDigits 16 n

/-- How a character of a quoted text is written. -/
def quoteChar (c : Char) : List Char :=
  match c with
  | '\x00' => ['\\', '0']
  | '\t' => ['\\', 't']
  | '\r' => ['\\', 'r']
  | '\n' => ['\\', 'n']
  | '"' => ['\\', '"']
  | '\\' => ['\\', '\\']
  | c =>
    if isPrintable c && !isExtending c then [c]
    else '\\' :: 'u' :: '\x7b' :: (hex c.toNat ++ ['\x7d'])

/-- The text between quotation marks. -/
def quote (s : String) : String :=
  String.ofList ('"' :: (s.toList.flatMap quoteChar ++ ['"']))

end Discussion.Text
