import Discussion.Text.Blank

/-!
# File formats
-/

namespace Discussion

/-- The formats in which documents are written. -/
inductive Format where
  | json
  | toml
deriving DecidableEq, Repr

namespace Format

/-- The name of a format. -/
def name : Format → String
  | json => "json"
  | toml => "toml"

/-- The format with exactly this name. -/
def ofName? (s : String) : Option Format :=
  if s = json.name then some json else if s = toml.name then some toml else none

/-- The format that a file extension stands for, in whatever case its letters are. -/
def ofExtension? (s : String) : Option Format :=
  ofName? (s.map Char.toLower)

/-- The format that a text names, the white space around it apart. -/
def parse (s : String) : Except String Format :=
  match ofExtension? (Text.trim s) with
  | some f => .ok f
  | none => .error ("unknown input format: " ++ s)

end Format

end Discussion
