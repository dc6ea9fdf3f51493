import Discussion.Error
import Discussion.Files.Environment
import Discussion.Files.System
import Discussion.Post.Document
import Discussion.Settings.Text

/-!
# Where settings come from

Settings are put together in layers, each of which overrides what the layers before it chose: the
defaults, a file of the user, a file of the working directory, and variables of the environment.
-/

namespace Discussion

/-! ## Files -/

/-- The directory of the user's file. A user without a home directory has none, wherever the variables say
that such files are. -/
def globalDirectory? (env : Environment) : Option Path :=
  env.home?.map fun home =>
    let chosen := ((env.get? "XDG_CONFIG_HOME").map Path.mk).filter Path.isAbsolute
    (chosen.getD ((Path.mk home).below ".config")).below "replytree"

/-- The path of the user's file. -/
def globalPath? (env : Environment) : Option Path :=
  (globalDirectory? env).map fun dir => dir.below "replytree.toml"

/-- The path of the file of a working directory. -/
def localPath (dir : Path) : Path :=
  dir.below ".replytree.toml"

/-- The choices in the file at a path. What is said of a text that is not TOML does not go on to the place and
the cause. -/
def Overlay.ofFile (fs : FileSystem) (p : Path) : Except Error Overlay :=
  match fs.read p with
  | .error e => .error (.configuration ("read " ++ p.text ++ ": " ++ e.message))
  | .ok text =>
    match Overlay.ofToml? text with
    | none => .error (.configuration ("parse " ++ p.text ++ ": " ++ Document.malformedToml))
    | some o => .ok o

/-- The choices in the file at a path; none if there is no path, or nothing there. -/
def Overlay.ofFile? (fs : FileSystem) : Option Path → Except Error Overlay
  | none => .ok {}
  | some p => if fs.exists? p then Overlay.ofFile fs p else .ok {}

/-! ## Variables -/

/-- A name in small letters. -/
def lowerCase (s : String) : String :=
  s.map Char.toLower

/-- The value of the variable that stands for a setting: its name, in whatever case, behind
`REPLYTREE_`. Of several such variables the last one counts. -/
def settingVariable? (env : Environment) (setting : String) : Option String :=
  (env.bindings.reverse.find? fun v => lowerCase v.1 = "replytree_" ++ setting).map (·.2)

/-- Reads the digits of a number that fits a word, given the value of the digits before. -/
def readWordDigits (n : Nat) : List Char → Except String UInt64
  | [] => .ok (UInt64.ofNat n)
  | c :: s =>
    if !c.isDigit then .error "invalid digit found in string"
    else
      let m := n * 10 + Text.digitValue c
      if m < UInt64.size then readWordDigits m s
      else .error "number too large to fit in target type"

/-- Reads a number that fits a word; it may have a plus sign. -/
def readWord (s : String) : Except String UInt64 :=
  match s.toList with
  | [] => .error "cannot parse integer from empty string"
  | ['+'] => .error "invalid digit found in string"
  | '+' :: r => readWordDigits 0 r
  | r => readWordDigits 0 r

universe u

/-- What a variable chooses, read from its value without the white space around it. -/
def ofVariable {α : Type u} (env : Environment) (setting : String)
    (read : String → Except String α) : Except Error (Option α) :=
  match settingVariable? env setting with
  | none => .ok none
  | some value =>
    match read (Text.trim value) with
    | .ok a => .ok (some a)
    | .error reason =>
      .error (.configuration ("REPLYTREE_" ++ setting.map Char.toUpper ++ ": " ++ reason))

/-- The choices in the environment. -/
def Overlay.ofEnvironment (env : Environment) : Except Error Overlay := do
  let rootParentId ← ofVariable env "root_parent_id" readWord
  let indent ← ofVariable env "indent" readWord
  let defaultFormat ← ofVariable env "default_format" Format.parse
  return { rootParentId, indent, defaultFormat }

/-! ## All layers -/

/-- The settings of a run; a working directory is looked at if one is given. The first layer that cannot
be read ends the run. -/
def Settings.load (fs : FileSystem) (env : Environment) (dir : Option Path) :
    Except Error Settings := do
  let shared ← Overlay.ofFile? fs (globalPath? env)
  let own ← Overlay.ofFile? fs (dir.map localPath)
  let chosen ← Overlay.ofEnvironment env
  return (((({} : Settings).overlay shared).overlay own).overlay chosen)

end Discussion
