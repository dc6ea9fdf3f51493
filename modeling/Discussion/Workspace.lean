import Discussion.Error
import Discussion.Files.Expansion
import Discussion.Files.System
import Discussion.Post.Document
import Discussion.Report
import Discussion.Settings.Basic
import Discussion.Threading.Build

/-!
# From paths to forests

A workspace is what it takes to read documents: files, the variables that may occur in paths, and
settings.
-/

namespace Discussion

/-- What documents are read with. -/
structure Workspace where
  /-- The files. -/
  files : FileSystem
  /-- The variables that may occur in paths. -/
  environment : Environment
  /-- The settings. -/
  settings : Settings

namespace Workspace

/-- The path that a path with variables stands for. -/
def resolve (w : Workspace) (p : Path) : Path :=
  p.expand w.environment

/-- The format of the file at a path: what its extension stands for, or the default. -/
def formatOf (w : Workspace) (p : Path) : Except Error Format :=
  match p.extension? with
  | none => .ok w.settings.defaultFormat
  | some e =>
    match Format.ofExtension? e with
    | some f => .ok f
    | none => .error (.unsupportedFormat p)

/-- The text of the file at a path. -/
def readText (w : Workspace) (p : Path) : Except Error String :=
  if !w.files.exists? p then .error (.fileNotFound p)
  else if !w.files.isFile p then .error (.unparsable p "not a file")
  else
    match w.files.read p with
    | .ok text => .ok text
    | .error .notFound => .error (.fileNotFound p)
    | .error _ => .error (.failed ("read thread file: " ++ p.text))

/-- The document in a text. -/
def parse (p : Path) (format : Format) (text : String) : Except Error Document :=
  match (match format with
    | .json => Document.ofJson text
    | .toml => Document.ofToml text) with
  | .ok doc => .ok doc
  | .error reason => .error (.unparsable p reason)

/-- The posts of the file at a path. -/
def load (w : Workspace) (p : Path) : Except Error (List Post) := do
  let p := w.resolve p
  let format ← w.formatOf p
  let text ← w.readText p
  let doc ← parse p format text
  return doc.posts.map (Post.normalize w.settings.rootParentId)

/-- The forest of the given posts. -/
def thread (posts : List Post) : Except Error (Forest Post) :=
  match Forest.thread posts with
  | .ok f => .ok f
  | .error e => .error (.threading e.inspected)

/-- The forest of the posts of the file at a path. -/
def build (w : Workspace) (p : Path) : Except Error (Forest Post) := do
  let posts ← w.load p
  thread posts

/-- The numbers of the file at a path. -/
def stats (w : Workspace) (p : Path) : Except Error Stats := do
  let f ← w.build p
  return f.stats

/-- The numbers of each file, with the paths as they were given. -/
def statsMany (w : Workspace) (ps : List Path) : List (Path × Except Error Stats) :=
  ps.map fun p => (p, w.stats p)

end Workspace

end Discussion
