import Discussion.Files.Path

/-!
# What is found at a path

The rest of the library sees files only through `FileSystem`: what a path leads to, and what reading it
gives.
-/

namespace Discussion

/-- Why a file cannot be read. -/
inductive ReadError where
  | notFound
  | permissionDenied
  | interrupted
  /-- The file does not hold text. -/
  | invalidText
  /-- There is a directory in place of the file. -/
  | isDirectory
deriving DecidableEq, Repr

/-- The wording of a read error. -/
def ReadError.message : ReadError → String
  | notFound => "No such file or directory (os error 2)"
  | permissionDenied => "Permission denied (os error 13)"
  | interrupted => "Interrupted system call (os error 4)"
  | invalidText => "stream did not contain valid UTF-8"
  | isDirectory => "Is a directory (os error 21)"

/-- What a path leads to. -/
inductive Entry where
  /-- Something that is not a file. -/
  | directory
  /-- A file, and what reading it gives. -/
  | file (content : Except ReadError String)

/-- A tree of files. -/
structure FileSystem where
  /-- What a path leads to, if anything. -/
  entry? : Path → Option Entry

namespace FileSystem

/-- Whether a path leads to anything. -/
def exists? (fs : FileSystem) (p : Path) : Bool :=
  (fs.entry? p).isSome

/-- Whether a path leads to a file. -/
def isFile (fs : FileSystem) (p : Path) : Bool :=
  fs.entry? p matches some (.file _)

/-- The text of the file at a path. -/
def read (fs : FileSystem) (p : Path) : Except ReadError String :=
  match fs.entry? p with
  | none => .error .notFound
  | some .directory => .error .isDirectory
  | some (.file content) => content

/-- The system that holds the given entries and nothing else; of two entries at one place the later one
counts. -/
def ofEntries (entries : List (Path × Entry)) : FileSystem where
  entry? p := (entries.reverse.find? fun e => e.1.components = p.components).map (·.2)

end FileSystem

end Discussion
