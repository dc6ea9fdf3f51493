/-!
# Paths

A path is a text that names a place in a tree of files by the parts between its slashes. Two paths with
the same components name the same place: repeated slashes, a slash at the end and single dots
that are not at the beginning do not count.
-/

namespace Discussion

/-- A path. -/
structure Path where
  /-- The path as it was written. -/
  text : String
deriving DecidableEq, Repr

namespace Path

/-- A step on a path. -/
inductive Component where
  /-- The slash before everything. -/
  | root
  /-- A single dot at the beginning. -/
  | here
  /-- Two dots. -/
  | up
  /-- A name. -/
  | name (s : List Char)
deriving DecidableEq, Repr

/-- The parts of a text between its slashes, the last one first, given the parts before and the
beginning of the next one backwards. -/
def splitSlashes (done : List (List Char)) (part : List Char) : List Char → List (List Char)
  | [] => part.reverse :: done
  | c :: s => if c = '/' then splitSlashes (part.reverse :: done) [] s else splitSlashes done (c :: part) s

/-- The parts of a text between its slashes. -/
def parts (s : List Char) : List (List Char) :=
  (splitSlashes [] [] s).reverse

/-- The component that a part between slashes stands for; nothing for an empty part or a single
dot. -/
def component? : List Char → Option Component
  | [] => none
  | ['.'] => none
  | ['.', '.'] => some .up
  | s => some (.name s)

/-- The components of a path. -/
def components (p : Path) : List Component :=
  match p.text.toList, parts p.text.toList with
  | '/' :: _, ps => .root :: ps.filterMap component?
  | _, ['.'] :: ps => .here :: ps.filterMap component?
  | _, ps => ps.filterMap component?

/-- Whether the path begins at the root. -/
def isAbsolute (p : Path) : Bool :=
  p.text.startsWith "/"

/-- The last component, if it is a name. -/
def fileName? (p : Path) : Option (List Char) :=
  match p.components.getLast? with
  | some (.name s) => some s
  | _ => none

/-- What stands behind the last dot of the file name; none if there is no dot but one at its
beginning. -/
def extension? (p : Path) : Option String :=
  p.fileName?.bind fun s =>
    match s.reverse.dropWhile (· ≠ '.') with
    | _ :: _ :: _ => some (String.ofList (s.reverse.takeWhile (· ≠ '.')).reverse)
    | _ => none

/-- The path of a name below a directory. -/
def below (dir : Path) (name : String) : Path :=
  if dir.text.isEmpty ∨ dir.text.endsWith "/" then ⟨dir.text ++ name⟩
  else ⟨dir.text ++ "/" ++ name⟩

end Path

end Discussion
