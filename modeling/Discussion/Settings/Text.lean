import Discussion.Json.Shaped
import Discussion.Settings.Basic
import Discussion.Toml.Reader

/-!
# Settings and overlays as texts

Settings and overlays are read from TOML and from JSON. Members of other names are ignored. What
settings do not mention has its default; what an overlay does not mention, or in JSON gives as null, is
not chosen.
-/

namespace Discussion

namespace Format

/-- Whether a value is an array or a table with nothing in it. -/
def isEmptyValue : Toml.Value → Bool
  | .array items => items.isEmpty
  | .table _ ms => ms.isEmpty
  | .tables items => items.isEmpty
  | _ => false

/-- The format that a TOML value names: its name as a text, or a table with the name for its only key
and an empty value. -/
def ofToml? : Toml.Value → Option Format
  | .text s => ofName? s
  | .table _ [(n, v)] => if isEmptyValue v then ofName? n else none
  | _ => none

/-- The format that a value names. -/
def ofData? : Data → Option Format
  | .text s => ofName? s
  | _ => none

end Format

/-- A number of a TOML text. -/
def numberOfToml? : Toml.Value → Option UInt64
  | .integer z => (Data.integer z).natural?
  | _ => none

namespace Settings

universe u

variable {α : Type u}

/-- What `read` takes from the member of a name, or `missing`. -/
def memberOr? (name : String) (read : Toml.Value → Option α) (missing : α) (ms : Toml.Members) :
    Option α :=
  match ms.lookup name with
  | none => some missing
  | some v => read v

/-- The settings of a TOML table. -/
def ofTable? (ms : Toml.Members) : Option Settings := do
  let rootParentId ← memberOr? "root_parent_id" numberOfToml? 0 ms
  let indent ← memberOr? "indent" numberOfToml? 2 ms
  let defaultFormat ← memberOr? "default_format" Format.ofToml? .json ms
  some { rootParentId, indent, defaultFormat }

/-- The settings in a TOML text. -/
def ofToml? (text : String) : Option Settings :=
  (Toml.read text.toList).bind ofTable?

/-- The shape of settings, in which null may be allowed. -/
def shape (nullable : Bool) : Json.Shape where
  label := "struct Settings"
  slots :=
    [ { name := "root_parent_id", kind := .natural, nullable },
      { name := "indent", kind := .natural, nullable },
      { name := "default_format", kind := .choice ["json", "toml"], nullable } ]

/-- The settings that a record describes. -/
def ofData? : Data → Option Settings
  | .record ms => do
    let rootParentId ← Data.optional? ["root_parent_id"] Data.natural? 0 ms
    let indent ← Data.optional? ["indent"] Data.natural? 2 ms
    let defaultFormat ← Data.optional? ["default_format"] Format.ofData? .json ms
    some { rootParentId, indent, defaultFormat }
  | _ => none

/-- The settings in a JSON text. -/
def ofJson? (text : String) : Option Settings :=
  match (shape false).read text.toList with
  | .error _ => none
  | .ok d => ofData? d

end Settings

namespace Overlay

universe u

variable {α : Type u}

/-- What `read` takes from the member of a name; nothing if there is no such member. -/
def member? (name : String) (read : Toml.Value → Option α) (ms : Toml.Members) :
    Option (Option α) :=
  match ms.lookup name with
  | none => some none
  | some v => (read v).map some

/-- The overlay of a TOML table. -/
def ofTable? (ms : Toml.Members) : Option Overlay := do
  let rootParentId ← member? "root_parent_id" numberOfToml? ms
  let indent ← member? "indent" numberOfToml? ms
  let defaultFormat ← member? "default_format" Format.ofToml? ms
  some { rootParentId, indent, defaultFormat }

/-- The overlay in a TOML text. -/
def ofToml? (text : String) : Option Overlay :=
  (Toml.read text.toList).bind ofTable?

/-- The overlay that a record describes. -/
def ofData? : Data → Option Overlay
  | .record ms => do
    let rootParentId ← Data.optional? ["root_parent_id"] (Data.nullable? Data.natural?) none ms
    let indent ← Data.optional? ["indent"] (Data.nullable? Data.natural?) none ms
    let defaultFormat ← Data.optional? ["default_format"] (Data.nullable? Format.ofData?) none ms
    some { rootParentId, indent, defaultFormat }
  | _ => none

/-- The overlay in a JSON text. -/
def ofJson? (text : String) : Option Overlay :=
  match (Settings.shape true).read text.toList with
  | .error _ => none
  | .ok d => ofData? d

end Overlay

end Discussion
