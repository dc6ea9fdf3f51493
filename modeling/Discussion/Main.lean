import Discussion.Command.Run

/-!
# The program

Looks up what a run may look at, and prints its outcome.
-/

namespace Discussion.Command

/-- The text of a file of the system; nothing if it cannot be read. -/
def readSystemFile (path : String) : IO String := do
  let bytes ← try IO.FS.readBinFile path catch _ => pure ByteArray.empty
  return (String.fromUTF8? bytes).getD ""

/-- The user that a process belongs to, from its status. -/
def userOf? (status : String) : Option String :=
  (status.splitOn "\n").findSome? fun line =>
    match line.splitOn "\t" with
    | "Uid:" :: user :: _ => some user
    | _ => none

/-- The home directory in the record of a user. -/
def homeOf? (records user : String) : Option String :=
  (records.splitOn "\n").findSome? fun record =>
    match record.splitOn ":" with
    | [_, _, id, _, _, home, _] => if id = user then some home else none
    | _ => none

/-- The variables of the process, and the home directory of its user. -/
def readEnvironment : IO Environment := do
  let environ ← readSystemFile "/proc/self/environ"
  let status ← readSystemFile "/proc/self/status"
  let records ← readSystemFile "/etc/passwd"
  return {
    entries := (environ.splitOn "\x00").filter fun entry => !entry.isEmpty
    recordedHome := (userOf? status).bind (homeOf? records) }

/-- Why reading a file failed. -/
def readErrorOf : IO.Error → ReadError
  | .noFileOrDirectory .. => .notFound
  | .permissionDenied .. => .permissionDenied
  | .interrupted .. => .interrupted
  | .inappropriateType .. => .isDirectory
  | _ => .permissionDenied

/-- What is found at a path. -/
def readEntry? (p : Path) : IO (Option Entry) := do
  let place := (← IO.currentDir) / p.text
  if p.text.isEmpty then return none
  else if ← place.isDir then return some .directory
  else if !(← place.pathExists) then return none
  else
    try
      let bytes ← IO.FS.readBinFile place
      match String.fromUTF8? bytes with
      | some text => return some (.file (.ok text))
      | none => return some (.file (.error .invalidText))
    catch e => return some (.file (.error (readErrorOf e)))

/-- Looks up what a run with the given words may look at, and prints its outcome. -/
def runProgram (words : List String) : IO UInt32 := do
  let environment ← readEnvironment
  let directory ← try some <$> Path.mk <$> toString <$> IO.currentDir catch _ => pure none
  let entries ← (pathsOf environment directory words).filterMapM fun p => do
    return (← readEntry? p).map fun entry => (p, entry)
  let isTerminal ← (← IO.getStdout).isTty
  let outcome := Host.run ⟨.ofEntries entries, environment, directory, isTerminal⟩ words
  IO.eprint outcome.err
  IO.print outcome.out
  return UInt32.ofNat outcome.exit

end Discussion.Command

/-- The program. -/
def main (words : List String) : IO UInt32 :=
  Discussion.Command.runProgram words
