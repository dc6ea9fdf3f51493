/-!
# Styled text

Text for terminals, between a sequence that begins a style and the sequence that ends all styles. A
text that holds the ending sequence itself keeps its style, because the style begins again behind it.
-/

namespace Discussion.Text

/-- The sequence that begins the style with the given codes. -/
def styleStart (codes : List Char) : List Char :=
  '\x1b' :: '[' :: (codes ++ ['m'])

/-- The sequence that ends all styles. -/
def styleEnd : List Char :=
  ['\x1b', '[', '0', 'm']

/-- The text with `start` behind each sequence that ends all styles. -/
def restarted (start : List Char) : List Char → List Char
  | [] => []
  | '\x1b' :: '[' :: '0' :: 'm' :: s => styleEnd ++ start ++ restarted start s
  | c :: s => c :: restarted start s

/-- The text in the style with the given codes. -/
def styled (codes text : String) : String :=
  let start := styleStart codes.toList
  String.ofList (start ++ restarted start text.toList ++ styleEnd)

end Discussion.Text
