import Discussion.Command.Line
import Discussion.Json.Writer
import Discussion.Settings.Load
import Discussion.Text.Styled
import Discussion.Workspace

/-!
# Runs of the program

`Line.run` says what a command line makes the program print, and with which exit code it ends. All that
a run looks at is in its `Host`.
-/

namespace Discussion.Command

/-- What a run can look at. -/
structure Host where
  /-- The files. -/
  files : FileSystem
  /-- The variables. -/
  environment : Environment
  /-- The working directory. -/
  directory : Option Path
  /-- Whether the output goes to a terminal. -/
  isTerminal : Bool := false

/-- What a run prints, and how it ends. -/
structure Outcome where
  /-- What is printed. -/
  out : String := ""
  /-- What is printed beside it. The log lines that a run with more detail writes there are left out, and so is
  the notice of a run that breaks off. -/
  err : String := ""
  /-- The exit code. -/
  exit : Nat := 0
deriving DecidableEq, Repr

/-! ## Colours -/

/-- Whether a variable is set, and not to `0`. -/
def isOn (env : Environment) (name : String) : Bool :=
  (env.get? name).any (· ≠ "0")

/-- Whether labels are coloured: always if that is asked for, otherwise on terminals unless it is
asked not to. -/
def Host.isColoured (h : Host) : Bool :=
  isOn h.environment "CLICOLOR_FORCE" ||
    (!h.environment.isSet "NO_COLOR" && h.environment.get? "CLICOLOR" ≠ some "0" && h.isTerminal)

/-- A label in the style with the given codes. -/
def Host.paint (h : Host) (codes label : String) : String :=
  if h.isColoured then Text.styled codes label else label

/-- The line of an error. -/
def Host.errorLine (h : Host) (e : Error) : String :=
  h.paint "1;31" "error" ++ ": " ++ e.message ++ "\n"

/-- The line of a warning. -/
def Host.warningLine (h : Host) (text : String) : String :=
  h.paint "33" "Warning" ++ ": " ++ text ++ "\n"

/-- The line of a result with a label. -/
def Host.labelLine (h : Host) (label text : String) : String :=
  h.paint "32" label ++ ": " ++ text ++ "\n"

/-- The line of a failure below a label. -/
def Host.failureLine (h : Host) (e : Error) : String :=
  "  " ++ h.paint "31" "✗" ++ " " ++ e.message ++ "\n"

/-! ## Requests -/

/-- The outcome of a run that ends with an error. -/
def Host.failing (h : Host) (e : Error) : Outcome where
  err := h.errorLine e
  exit := e.exitCode

/-- The outcome of a run that breaks off before it prints anything. -/
def Outcome.brokenOff : Outcome where
  exit := 101

/-- The outcome of a run that ends well unless `x` is an error. -/
def Host.outcome {α : Type} (h : Host) (x : Except Error α) (print : α → Outcome) : Outcome :=
  match x with
  | .ok a => print a
  | .error e => h.failing e

/-- Lines, each ended by a line feed. -/
def unlines (lines : List String) : String :=
  String.join (lines.map (· ++ "\n"))

/-- The warning of discussions that begin with replies. -/
def Host.promotedWarning (h : Host) (file : Path) (f : Forest Post) : String :=
  if f.promoted = 0 then ""
  else
    h.warningLine
      (toString f.promoted ++ " post(s) reply to posts missing from " ++ file.text)

/-- The lines of one file in a summary of several. -/
def Host.statsBlock (h : Host) (path : Path) : Except Error Stats → String
  | .ok s => h.labelLine path.text s.summary
  | .error e => h.labelLine path.text "failed" ++ h.failureLine e

/-- The first error in a list of results. -/
def firstError? {α : Type} (results : List (Path × Except Error α)) : Option Error :=
  results.findSome? fun r =>
    match r.2 with
    | .ok _ => none
    | .error e => some e

/-- The outcome of a summary of files. -/
def Host.runStats (h : Host) (w : Workspace) (files : List Path) : Outcome :=
  let results := w.statsMany files
  let out := String.join (results.map fun r => h.statsBlock r.1 r.2)
  match firstError? results with
  | none => { out }
  | some e => { h.failing e with out }

/-- The outcome of showing where settings are read from. -/
def Host.runConfigPath (h : Host) : Outcome where
  out :=
    h.labelLine "global" ((globalPath? h.environment).elim "<unavailable>" Path.text) ++
      h.directory.elim "" fun dir => h.labelLine "local" (localPath dir).text

/-- The outcome of showing settings. -/
def Host.runConfigShow (h : Host) (s : Settings) : Outcome :=
  match s.toToml with
  | .ok text => { out := Text.trimEnd text ++ "\n" }
  | .error reason => h.failing (.configuration reason)

/-- The commands, for completions. -/
def commandWords : String :=
  "tree flat leaves json stats config completion help"

/-- The completions of a shell. -/
def Shell.script : Shell → String
  | bash => "complete -o default -W \"" ++ commandWords ++ "\" replytree\n"
  | zsh => "compctl -f -k \"(" ++ commandWords ++ ")\" replytree\n"
  | fish => "complete -c replytree -n __fish_use_subcommand -a \"" ++ commandWords ++ "\"\n"
  | elvish =>
    "set edit:completion:arg-completer[replytree] = \x7b|@words| put " ++ commandWords ++ " \x7d\n"
  | powershell =>
    "Register-ArgumentCompleter -Native -CommandName replytree -ScriptBlock \x7b -split '" ++
      commandWords ++ "' \x7d\n"

/-- The outcome of a request, given settings. -/
def Request.run (h : Host) (s : Settings) (r : Request) : Outcome :=
  let w : Workspace := ⟨h.files, h.environment, s⟩
  match r with
  | .tree file =>
    h.outcome (w.build file) fun f =>
      { out := String.join f.postDrawings, err := h.promotedWarning file f }
  | .flat file =>
    h.outcome (w.build file) fun f =>
      (f.flatLines? s.indent).elim .brokenOff fun lines => { out := unlines lines }
  | .leaves file => h.outcome (w.build file) fun f => { out := unlines f.leafLines }
  | .json file => h.outcome (w.build file) fun f => { out := Json.prettyText f.postData ++ "\n" }
  | .stats files => h.runStats w files
  | .configShow => h.runConfigShow s
  | .configPath => h.runConfigPath
  | .completion shell => { out := shell.script }

/-- The outcome of a request. Completions need no settings. -/
def Host.runRequest (h : Host) : Option Request → Outcome
  | none => h.failing (.usage "no command given, see --help")
  | some (.completion shell) => { out := shell.script }
  | some r => h.outcome (Settings.load h.files h.environment h.directory) fun s => r.run h s

/-! ## Command lines -/

/-- How the program is used. -/
def usageText : String :=
  "Usage: replytree [-d]... tree|flat|leaves|json FILE\n" ++
    "       replytree [-d]... stats FILE...\n" ++
    "       replytree [-d]... config show|path\n" ++
    "       replytree completion bash|elvish|fish|powershell|zsh\n"

/-- What is said if more detail is asked for than there is. -/
def excessiveDetail : String :=
  "Don't be crazy, max is -d -d -d\n"

/-- The outcome of a command line. -/
def Line.run (h : Host) : Line → Outcome
  | .request r detail =>
    let o := h.runRequest r
    if detail ≤ 3 then o else { o with err := excessiveDetail ++ o.err }
  | .version name => { out := name ++ " 0.3.0\n" }
  | .help => { out := usageText }
  | .refused => { err := usageText, exit := 2 }

/-- The outcome of running the program with the given words. -/
def Host.run (h : Host) (words : List String) : Outcome :=
  (Line.ofWords words).run h

/-- The paths that a request may look at, settings apart. -/
def Request.paths : Request → List Path
  | .tree file | .flat file | .leaves file | .json file => [file]
  | .stats files => files
  | _ => []

/-- The paths that a run may look at. -/
def pathsOf (env : Environment) (directory : Option Path) (words : List String) : List Path :=
  let asked :=
    match Line.ofWords words with
    | .request (some r) _ => r.paths.map (Path.expand env)
    | _ => []
  (globalPath? env).toList ++ (directory.map localPath).toList ++ asked

end Discussion.Command
