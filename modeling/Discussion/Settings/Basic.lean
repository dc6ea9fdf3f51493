import Discussion.Data.Basic
import Discussion.Settings.Format
import Discussion.Toml.Writer

/-!
# Settings

What a user can choose, and overlays that choose anew some of it.
-/

namespace Discussion

/-- What a user can choose. -/
structure Settings where
  /-- The number by which a board says that a post has no parent. -/
  rootParentId : UInt64 := 0
  /-- The number of spaces by which a reply is indented in a flat listing. -/
  indent : UInt64 := 2
  /-- The format of files without extension. -/
  defaultFormat : Format := .json
deriving DecidableEq, Repr

/-- Choices that replace earlier ones where they are given. -/
structure Overlay where
  rootParentId : Option UInt64 := none
  indent : Option UInt64 := none
  defaultFormat : Option Format := none
deriving DecidableEq, Repr

namespace Settings

/-- The settings in which the choices of an overlay have replaced earlier ones. -/
def overlay (s : Settings) (o : Overlay) : Settings where
  rootParentId := o.rootParentId.getD s.rootParentId
  indent := o.indent.getD s.indent
  defaultFormat := o.defaultFormat.getD s.defaultFormat

/-- The settings as the members of a table. -/
def toMembers (s : Settings) : List (String × Data) :=
  [ ("root_parent_id", .integer s.rootParentId.toNat),
    ("indent", .integer s.indent.toNat),
    ("default_format", .text s.defaultFormat.name) ]

/-- The TOML text of settings; an error says why there is none. -/
def toToml (s : Settings) : Except String String :=
  match Toml.writeMembers? s.toMembers with
  | some cs => .ok (String.ofList cs)
  | none => .error "serialize settings: out-of-range value for u64 type"

end Settings

end Discussion
