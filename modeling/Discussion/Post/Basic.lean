import Discussion.Text.Shown
import Discussion.Threading.Basic

/-!
# Posts

A post of a discussion board: a number, the number of the post it replies to, a subject, and an author
if one is known.
-/

namespace Discussion

/-- A post. -/
structure Post where
  /-- The number of the post. -/
  id : UInt64
  /-- The number of the post replied to; none for a post that starts a discussion. -/
  parent : Option UInt64 := none
  /-- The subject. -/
  subject : String := ""
  /-- The author. -/
  author : Option String := none
deriving DecidableEq, Repr

namespace Post

instance : Threaded Post UInt64 where
  id := Post.id
  parent? := Post.parent

instance : Inspect Post where
  shown p :=
    .record "Post"
      [("id", shown p.id), ("parent", shown p.parent), ("subject", shown p.subject),
        ("author", shown p.author)]

/-- A post without a parent in place of one whose parent is `absent`, the number by which a board says
that there is no parent. -/
def normalize (absent : UInt64) (p : Post) : Post :=
  if p.parent = some absent then { p with parent := none } else p

/-- The post on one line. -/
def summary (p : Post) : String :=
  "#" ++ toString p.id ++ " " ++ p.subject ++
    match p.author with
    | some a => " (" ++ a ++ ")"
    | none => ""

end Post

end Discussion
