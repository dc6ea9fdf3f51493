import Discussion.Files.Path

/-!
# The environment of a run

An environment is made of the variables of a run, and of what the system knows of the user without them.
Its variables are a list of entries, each of which sets a variable: its name, an equals sign and its
value. Names are told apart by case.

The entries can be looked at in two ways. `bindings` lists the variables, with the name of an entry
before its first equals sign. `get?` looks up a variable by the text before an equals sign, whichever
one that is, so the entry `A=B=C` gives a value to both `A` and `A=B`.
-/

namespace Discussion

/-- The variables of a run, and the user it belongs to. -/
structure Environment where
  /-- The entries, in the order in which they were made. -/
  entries : List String := []
  /-- The home directory of the user, as the system has it on record. -/
  recordedHome : Option String := none
deriving Repr

namespace Environment

/-- The environment in which each name has the value beside it. -/
def ofBindings (bindings : List (String × String)) : Environment :=
  { entries := bindings.map fun b => b.1 ++ "=" ++ b.2 }

/-- The variable that an entry sets, with its value. A name has at least one character, so an equals
sign at the beginning belongs to the name; an entry without another one sets nothing. -/
def binding? (entry : String) : Option (String × String) :=
  match entry.toList with
  | [] => none
  | c :: s =>
    match s.dropWhile (· ≠ '=') with
    | [] => none
    | _ :: value => some (String.ofList (c :: s.takeWhile (· ≠ '=')), String.ofList value)

/-- The variables with their values. -/
def bindings (env : Environment) : List (String × String) :=
  env.entries.filterMap binding?

/-- The value of a variable: what follows its name and an equals sign in the first entry that begins
with them. The empty text is the name of no variable. -/
def get? (env : Environment) (name : String) : Option String :=
  if name = "" then none
  else
    let head := name.toList ++ ['=']
    (env.entries.findSome? fun entry => head.isPrefixOf? entry.toList).map String.ofList

/-- Whether a variable is set. -/
def isSet (env : Environment) (name : String) : Bool :=
  (env.get? name).isSome

/-- The home directory of the user: the value of `HOME`, or the one on record if that says nothing. An
empty text names no directory. -/
def home? (env : Environment) : Option String :=
  ((env.get? "HOME").filter (!·.isEmpty)).or (env.recordedHome.filter (!·.isEmpty))

end Environment

end Discussion
