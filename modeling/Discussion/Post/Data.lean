import Discussion.Json.Shaped
import Discussion.Post.Basic
import Discussion.Toml.Writer

/-!
# Posts as data

A post is written as a record. It is read from a record, in which other members are ignored and the
parent may also be called `parentid`, or from a list of its values, of which all but the number may be
left out at the end.
-/

namespace Discussion.Post

/-- A text or nothing. -/
def textOrNull? : Data → Option (Option String) :=
  Data.nullable? Data.text?

/-- A number or nothing. -/
def numberOrNull? : Data → Option (Option UInt64) :=
  Data.nullable? Data.natural?

/-- The post that the members of a record describe. -/
def ofMembers? (ms : List (String × Data)) : Option Post := do
  let id ← Data.required? ["id"] Data.natural? ms
  let parent ← Data.optional? ["parent", "parentid"] numberOrNull? none ms
  let subject ← Data.optional? ["subject"] Data.text? "" ms
  let author ← Data.optional? ["author"] textOrNull? none ms
  some { id, parent, subject, author }

/-- The post that a list of values describes. -/
def ofValues? : List Data → Option Post
  | [id] => do
    some { id := ← id.natural? }
  | [id, parent] => do
    some { id := ← id.natural?, parent := ← numberOrNull? parent }
  | [id, parent, subject] => do
    some { id := ← id.natural?, parent := ← numberOrNull? parent, subject := ← subject.text? }
  | [id, parent, subject, author] => do
    some {
      id := ← id.natural?
      parent := ← numberOrNull? parent
      subject := ← subject.text?
      author := ← textOrNull? author }
  | _ => none

/-- The post that a value describes. -/
def ofData? : Data → Option Post
  | .record ms => ofMembers? ms
  | .list ds => ofValues? ds
  | _ => none

/-- A number as data. -/
def number (n : UInt64) : Data :=
  .integer n.toNat

/-- The members of the record of a post; the author appears only if there is one, and the parent is
null if there is none. -/
def toMembers (p : Post) : List (String × Data) :=
  [("id", number p.id), ("parent", p.parent.elim .null number), ("subject", .text p.subject)] ++
    (p.author.map fun a => ("author", Data.text a)).toList

/-- The record of a post. -/
def toData (p : Post) : Data :=
  .record p.toMembers

/-- The members that TOML, which has no null, can write. -/
def toTable (p : Post) : List (String × Data) :=
  p.toMembers.filter fun m => m.2 matches .integer _ | .text _

/-- The TOML text of a post, if its numbers fit signed words. -/
def toToml? (p : Post) : Option String :=
  (Toml.writeMembers? p.toTable).map String.ofList

/-- The shape of the record of a post. -/
def shape : Json.Shape where
  label := "struct Post"
  slots :=
    [ { name := "id", kind := .natural, required := true },
      { name := "parent", aliases := ["parentid"], kind := .natural, nullable := true },
      { name := "subject", kind := .text },
      { name := "author", kind := .text, nullable := true } ]

end Discussion.Post
