import Discussion.Files.System

/-!
# Trees of directories

A system of files in which the directories on the way to a file exist, `..` leads to the directory
above, and relative paths begin at a working directory. Only a directory may stand before a slash.
-/

namespace Discussion.FileSystem

/-- The step that a part between slashes stands for; an empty part and a single dot stay where they
are. -/
def stepOf (part : List Char) : Path.Component :=
  (Path.component? part).getD .here

/-- The steps of a path, one for each part between its slashes. -/
def stepsOf (p : Path) : List Path.Component :=
  match p.text.toList with
  | '/' :: s => .root :: (Path.parts s).map stepOf
  | s => (Path.parts s).map stepOf

/-- The names on the way from the root to where the steps lead, starting `at_` the given place, the last
name first. Every place that a step starts from has to be a directory. -/
def resolve (isDirectory : List (List Char) → Bool) :
    (at_ : List (List Char)) → List Path.Component → Option (List (List Char))
  | at_, [] => some at_
  | _, .root :: cs => resolve isDirectory [] cs
  | at_, .here :: cs => if isDirectory at_ then resolve isDirectory at_ cs else none
  | at_, .up :: cs => if isDirectory at_ then resolve isDirectory at_.tail cs else none
  | at_, .name s :: cs => if isDirectory at_ then resolve isDirectory (s :: at_) cs else none

/-- The names of a path from the root, the last one first; dots are not looked at. -/
def namesOf (p : Path) : List (List Char) :=
  (p.components.filterMap fun
    | .name s => some s
    | _ => none).reverse

/-- Whether a list is the end of another one, and shorter. -/
def isProperSuffix (a b : List (List Char)) : Bool :=
  a.length < b.length && a.isSuffixOf b

/-- The tree of the given entries, whose paths begin at the root. -/
def ofTree (workingDirectory : Path) (entries : List (Path × Entry)) : FileSystem where
  entry? p :=
    let places := entries.map fun e => (namesOf e.1, e.2)
    let lookUp (names : List (List Char)) : Option Entry :=
      match places.reverse.find? fun e => e.1 = names with
      | some (_, entry) => some entry
      | none =>
        if names.isEmpty || places.any fun e => isProperSuffix names e.1 then some .directory
        else none
    let isDirectory (names : List (List Char)) : Bool := lookUp names matches some .directory
    if p.text.isEmpty then none
    else
      match resolve isDirectory (namesOf workingDirectory) (stepsOf p) with
      | none => none
      | some names => lookUp names

end Discussion.FileSystem
