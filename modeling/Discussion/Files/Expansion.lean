import Discussion.Files.Environment
import Discussion.Text.Alphanumeric

/-!
# Variables in paths

`$NAME` and `${NAME}` in a path stand for the value of a variable, `${NAME:-text}` for the text if the
variable is not set, and `$$` for a single `$`. Then a `~` at the beginning stands for the home
directory. Values are put in as they are.

If a variable that is not set has no text to stand in for it, the whole path stays as it is.
-/

namespace Discussion.Expansion

/-- What a path is made of. -/
inductive Piece where
  /-- Characters that stand for themselves. -/
  | literal (s : List Char)
  /-- A reference to a variable, with the text that stands in for it. -/
  | reference (name : String) (fallback : Option (List Char))
deriving DecidableEq, Repr

/-- Whether a character can stand in a name without braces. -/
def isNameChar (c : Char) : Bool :=
  Text.isAlphanumeric c || c == '_'

/-- The text before the first `:-`, and the text behind it. -/
def splitFallback : List Char → Option (List Char × List Char)
  | [] => none
  | ':' :: '-' :: s => some ([], s)
  | c :: s => (splitFallback s).map fun (before, behind) => (c :: before, behind)

/-- The reference whose braces hold the given text. A text that begins with `:-` is a name. -/
def braced (s : List Char) : Piece :=
  match splitFallback s with
  | some (c :: name, fallback) => .reference (String.ofList (c :: name)) (some fallback)
  | _ => .reference (String.ofList s) none

/-- The piece that begins behind a `$`, and the number of characters it takes. -/
def afterDollar (s : List Char) : Piece × Nat :=
  match s with
  | '$' :: _ => (.literal ['$'], 1)
  | '\x7b' :: r =>
    match r.dropWhile (· ≠ '\x7d') with
    | [] => (.literal ['$', '\x7b'], 1)
    | _ => (braced (r.takeWhile (· ≠ '\x7d')), (r.takeWhile (· ≠ '\x7d')).length + 2)
  | s =>
    match s.takeWhile isNameChar with
    | [] => (.literal ['$'], 0)
    | name => (.reference (String.ofList name) none, name.length)

/-- The pieces of a path. -/
def pieces : List Char → List Piece
  | [] => []
  | c :: s =>
    if c = '$' then (afterDollar s).1 :: pieces (s.drop (afterDollar s).2)
    else .literal [c] :: pieces s
termination_by s => s.length
decreasing_by
  · simp only [List.length_drop, List.length_cons]
    omega
  · exact Nat.lt_succ_self _

/-- What a piece stands for; none for a variable that is not set. -/
def Piece.value? (env : Environment) : Piece → Option (List Char)
  | literal s => some s
  | reference name fallback => ((env.get? name).map String.toList).or fallback

/-- The path with all variables replaced. -/
def variables? (env : Environment) (s : List Char) : Option (List Char) :=
  ((pieces s).mapM (Piece.value? env)).map List.flatten

/-- The path with a `~` at its beginning replaced. -/
def tilde (env : Environment) (s : List Char) : List Char :=
  match s, env.home? with
  | ['~'], some home => home.toList
  | '~' :: '/' :: r, some home => home.toList ++ '/' :: r
  | s, _ => s

/-- Whether a text begins with `~`. -/
def startsWithTilde : List Char → Bool
  | '~' :: _ => true
  | _ => false

/-- The path with variables and `~` replaced. A `~` that came with a value is left alone. -/
def full (env : Environment) (s : List Char) : List Char :=
  match variables? env s with
  | none => s
  | some t => if startsWithTilde t && !startsWithTilde s then t else tilde env t

end Expansion

/-- The path that a path with variables stands for. -/
def Path.expand (env : Environment) (p : Path) : Path :=
  ⟨String.ofList (Expansion.full env p.text.toList)⟩

end Discussion
