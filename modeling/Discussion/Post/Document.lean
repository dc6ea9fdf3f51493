import Discussion.Json.Reader
import Discussion.Json.Writer
import Discussion.Post.Data
import Discussion.Toml.Reader

/-!
# Documents

A document holds the posts of a discussion board. It is a list of posts (`bare`), or a record with such
a list under the name `posts` (`wrapped`).
-/

namespace Discussion

/-- A document, by its layout. -/
inductive Document where
  | bare (posts : List Post)
  | wrapped (posts : List Post)
deriving DecidableEq, Repr

namespace Document

/-- The posts of a document in their order. -/
def posts : Document → List Post
  | bare ps => ps
  | wrapped ps => ps

/-- The posts in a list. -/
def postsOf? : Data → Option (List Post) :=
  Data.listOf? Post.ofData?

/-- The document that a value describes. -/
def ofData? : Data → Option Document
  | .list ds => (postsOf? (.list ds)).map bare
  | .record ms => (Data.required? ["posts"] postsOf? ms).map wrapped
  | _ => none

/-- A document as data. -/
def toData : Document → Data
  | bare ps => .list (ps.map Post.toData)
  | wrapped ps => .record [("posts", .list (ps.map Post.toData))]

/-- What is said of a value that is no document. -/
def mismatch : String :=
  "data did not match any variant of untagged enum ThreadDocument"

/-- What is said of a text that is not TOML, without the place and the cause that would follow. -/
def malformedToml : String :=
  "TOML parse error"

/-- Reads a document from JSON. The value at the front of the text is looked at before the rest of the
text. -/
def ofJson (text : String) : Except String Document :=
  let s := text.toList
  match Json.readFront s with
  | .error f => .error (f.message s)
  | .ok (d, r) =>
    match ofData? d with
    | none => .error mismatch
    | some doc =>
      match Json.readEnd r with
      | .error f => .error (f.message s)
      | .ok () => .ok doc

/-- Reads a document from TOML. -/
def ofToml (text : String) : Except String Document :=
  match Toml.read text.toList with
  | none => .error malformedToml
  | some ms =>
    match ofData? (.record (Toml.Value.membersToData ms)) with
    | none => .error (mismatch ++ "\n")
    | some doc => .ok doc

/-- The TOML text of a wrapped document, if the numbers of its posts fit signed words. -/
def toToml? (posts : List Post) : Option String :=
  (Toml.writeTables? "posts" (posts.map Post.toTable)).map String.ofList

end Document

namespace Post

/-- Reads a post from JSON. -/
def ofJson (text : String) : Except Json.Problem Post :=
  match shape.read text.toList with
  | .error p => .error p
  | .ok d =>
    match ofData? d with
    | some p => .ok p
    | none => .error (.misfit (.wrongType d shape.label))

/-- Reads a post from TOML. -/
def ofToml? (text : String) : Option Post :=
  (Toml.read text.toList).bind fun ms => ofMembers? (Toml.Value.membersToData ms)

end Post

end Discussion
