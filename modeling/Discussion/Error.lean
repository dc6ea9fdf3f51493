import Discussion.Files.Path
import Discussion.Threading.Message

/-!
# Errors

Everything that can go wrong for a user, with its wording and with the exit code of a run that ends with
it. The codes are those of `sysexits.h`.
-/

namespace Discussion

/-- An error. -/
inductive Error where
  /-- The posts of a file are not a forest. -/
  | threading (e : ThreadingError String)
  /-- There is nothing at the path. -/
  | fileNotFound (path : Path)
  /-- The extension of the path stands for no format. -/
  | unsupportedFormat (path : Path)
  /-- What is at the path is not a document. -/
  | unparsable (path : Path) (reason : String)
  /-- Settings cannot be read or written. -/
  | configuration (reason : String)
  /-- Something could not be done. -/
  | failed (action : String)
  /-- The command line asks for nothing. -/
  | usage (reason : String)
deriving DecidableEq, Repr

namespace Error

/-- The wording of an error. -/
def message : Error → String
  | threading e => e.message
  | fileNotFound p => "file not found: " ++ p.text
  | unsupportedFormat p => "unsupported thread file format: " ++ p.text
  | unparsable p reason => "cannot parse " ++ p.text ++ ": " ++ reason
  | configuration reason => "config error: " ++ reason
  | failed action => "operation failed: " ++ action
  | usage reason => reason

/-- The exit code of a run that ends with the error. -/
def exitCode : Error → Nat
  | usage _ => 64
  | threading _ | unsupportedFormat _ | unparsable _ _ => 65
  | fileNotFound _ => 66
  | failed _ => 74
  | configuration _ => 78

end Error

end Discussion
