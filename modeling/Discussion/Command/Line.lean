import Discussion.Files.Path

/-!
# The command line

The words of a command line are read from left to right. The flags `-d`, `-h` and `-V` (`--debug`,
`--help` and `--version`) may stand anywhere; the other words are commands, then file names. Behind `--`
every word is a file name.

`-h` and `-V` end the reading at once, and so does the first word that does not fit.
-/

namespace Discussion.Command

/-- The shells for which completions can be written. -/
inductive Shell where
  | bash
  | elvish
  | fish
  | powershell
  | zsh
deriving DecidableEq, Repr

/-- The shell of a name. -/
def Shell.ofName? : String → Option Shell
  | "bash" => some bash
  | "elvish" => some elvish
  | "fish" => some fish
  | "powershell" => some powershell
  | "zsh" => some zsh
  | _ => none

/-- What a user can ask for. -/
inductive Request where
  /-- Draw the discussions of a file. -/
  | tree (file : Path)
  /-- List the posts of a file, indented by their depth. -/
  | flat (file : Path)
  /-- List the posts of a file that have no replies. -/
  | leaves (file : Path)
  /-- Write the posts of a file as JSON. -/
  | json (file : Path)
  /-- Summarize files. -/
  | stats (files : List Path)
  /-- Show the settings in effect. -/
  | configShow
  /-- Show where settings are read from. -/
  | configPath
  /-- Write completions for a shell. -/
  | completion (shell : Shell)
deriving DecidableEq, Repr

/-- What a command line says. -/
inductive Line where
  /-- A request, if there is one, and how many times more detail was asked for. -/
  | request (request : Option Request) (detail : Nat)
  /-- Show the version of the program or of the command with the given name. -/
  | version (name : String)
  /-- Show how the program is used. -/
  | help
  /-- The words do not fit. -/
  | refused
deriving DecidableEq, Repr

/-- What a word is. -/
inductive Word where
  /-- Flags for more detail, as many as given. -/
  | detail (count : Nat)
  | version
  | help
  /-- The mark behind which every word is a file name. -/
  | escape
  /-- A command or a file name. -/
  | plain (s : String)
  /-- Flags that do not exist. -/
  | unknown
deriving DecidableEq, Repr

/-- The meaning of letters behind one dash, given the number of `d`s before them. -/
def Word.ofFlags (count : Nat) : List Char → Word
  | [] => detail count
  | 'd' :: s => ofFlags (count + 1) s
  | 'h' :: _ => help
  | 'V' :: _ => version
  | _ => unknown

/-- The meaning of a word. A dash alone is a file name. -/
def Word.ofString (s : String) : Word :=
  match s.toList with
  | ['-', '-'] => escape
  | '-' :: '-' :: _ =>
    if s = "--debug" then detail 1
    else if s = "--help" then help
    else if s = "--version" then version
    else unknown
  | '-' :: c :: flags => ofFlags 0 (c :: flags)
  | _ => plain s

/-- How many file names a command takes, and the request that it makes of them. A request may be refused
as soon as the words do not fit. -/
structure Operands where
  /-- Whether another word fits behind the given ones. -/
  accepts : List String → String → Bool
  /-- The request, if the words are complete. -/
  request? : List String → Option Request

namespace Operands

/-- No words. -/
def none (request : Request) : Operands where
  accepts _ _ := false
  request?
    | [] => some request
    | _ => Option.none

/-- One file. -/
def file (request : Path → Request) : Operands where
  accepts before s := before.isEmpty && !s.isEmpty
  request?
    | [s] => some (request ⟨s⟩)
    | _ => Option.none

/-- One file or more. -/
def files (request : List Path → Request) : Operands where
  accepts _ s := !s.isEmpty
  request?
    | [] => Option.none
    | ss => some (request (ss.map Path.mk))

/-- One shell. -/
def shell (request : Shell → Request) : Operands where
  accepts before s := before.isEmpty && (Shell.ofName? s).isSome
  request?
    | [s] => (Shell.ofName? s).map request
    | _ => Option.none

end Operands

/-- The level of detail: flags of the inner command replace those before it. -/
def detailOf (outer inner : Nat) : Nat :=
  if inner = 0 then outer else inner

/-- Reads words that all are operands. -/
def readEscaped (operands : Operands) (detail : Nat) (before : List String) :
    List String → Line
  | [] =>
    match operands.request? before with
    | some r => .request (some r) detail
    | none => .refused
  | s :: ss =>
    if operands.accepts before s then readEscaped operands detail (before ++ [s]) ss else .refused

/-- Reads the words behind the command `name`. -/
def readOperands (name : String) (operands : Operands) (outer inner : Nat) (before : List String) :
    List String → Line
  | [] => readEscaped operands (detailOf outer inner) before []
  | s :: ss =>
    match Word.ofString s with
    | .detail n => readOperands name operands outer (inner + n) before ss
    | .version => .version name
    | .help => .help
    | .escape => readEscaped operands (detailOf outer inner) before ss
    | .unknown => .refused
    | .plain s =>
      if operands.accepts before s then readOperands name operands outer inner (before ++ [s]) ss
      else .refused

/-- The commands. -/
inductive Name where
  | tree
  | flat
  | leaves
  | json
  | stats
  | config
  | completion
  | help
deriving DecidableEq, Repr

/-- The command of a name. -/
def Name.ofString? : String → Option Name
  | "tree" => some tree
  | "flat" => some flat
  | "leaves" => some leaves
  | "json" => some json
  | "stats" => some stats
  | "config" => some config
  | "completion" => some completion
  | "help" => some help
  | _ => none

/-- Whether help can be given on the words behind `config help`. -/
def isConfigTopic : List String → Bool
  | [] => true
  | [s] => s = "show" || s = "path" || s = "help"
  | _ => false

/-- Whether help can be given on the words behind `help`. -/
def isTopic : List String → Bool
  | [] => true
  | [s] => (Name.ofString? s).isSome
  | "config" :: ss => isConfigTopic ss
  | _ => false

/-- Help, if it can be given. -/
def helpIf (given : Bool) : Line :=
  if given then .help else .refused

/-- Reads the words behind `config`. -/
def readConfig (outer inner : Nat) : List String → Line
  | [] => .refused
  | s :: ss =>
    match Word.ofString s with
    | .detail n => readConfig outer (inner + n) ss
    | .version => .version "replytree-config"
    | .help => .help
    | .escape => .refused
    | .unknown => .refused
    | .plain s =>
      let detail := detailOf outer inner
      if s = "show" then readOperands "replytree-config-show" (.none .configShow) detail 0 [] ss
      else if s = "path" then readOperands "replytree-config-path" (.none .configPath) detail 0 [] ss
      else if s = "help" then helpIf (isConfigTopic ss)
      else .refused

/-- Reads the words behind a command. -/
def readCommand (detail : Nat) (ss : List String) : Name → Line
  | .tree => readOperands "replytree-tree" (.file .tree) detail 0 [] ss
  | .flat => readOperands "replytree-flat" (.file .flat) detail 0 [] ss
  | .leaves => readOperands "replytree-leaves" (.file .leaves) detail 0 [] ss
  | .json => readOperands "replytree-json" (.file .json) detail 0 [] ss
  | .stats => readOperands "replytree-stats" (.files .stats) detail 0 [] ss
  | .config => readConfig detail 0 ss
  | .completion => readOperands "replytree-completion" (.shell .completion) detail 0 [] ss
  | .help => helpIf (isTopic ss)

/-- Reads a command line, given the number of flags for more detail before it. -/
def readFrom (detail : Nat) : List String → Line
  | [] => .request none detail
  | s :: ss =>
    match Word.ofString s with
    | .detail n => readFrom (detail + n) ss
    | .version => .version "replytree"
    | .help => .help
    | .escape => if ss.isEmpty then .request none detail else .refused
    | .unknown => .refused
    | .plain s =>
      match Name.ofString? s with
      | some name => readCommand detail ss name
      | none => .refused

/-- What a command line says. -/
def Line.ofWords (ss : List String) : Line :=
  readFrom 0 ss

end Discussion.Command
