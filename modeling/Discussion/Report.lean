import Discussion.Post.Data
import Discussion.Tree.Data
import Discussion.Tree.Drawing
import Discussion.Tree.Shape

/-!
# Reports on a forest of posts

Listings of the posts, and a summary of the shape of the forest.

A flat listing indents by any number of spaces for a level, and a text has no room for more than
`Text.maxSize` of them. Asking for more does not give an error but ends the run. Memory is taken to suffice
otherwise, for whole lines and for the whole listing too.
-/

namespace Discussion

/-- The greatest size of a text in bytes, which is the greatest signed word. -/
def Text.maxSize : Nat :=
  9223372036854775807

/-- So many spaces; none if no text has room for them. -/
def Text.spaces? (n : Nat) : Option String :=
  if n ≤ maxSize then some (String.ofList (List.replicate n ' ')) else none

/-- The shape of a forest of posts in numbers. -/
structure Stats where
  /-- The number of posts. -/
  posts : Nat := 0
  /-- The number of discussions. -/
  threads : Nat := 0
  /-- The number of discussions that begin with a reply to a post that is not there. -/
  promoted : Nat := 0
  /-- The number of posts on the longest chain of replies. -/
  depth : Nat := 0
  /-- The number of posts without replies. -/
  leaves : Nat := 0
deriving DecidableEq, Repr

namespace Stats

/-- The numbers on one line. -/
def summary (s : Stats) : String :=
  "posts: " ++ toString s.posts ++ ", threads: " ++ toString s.threads ++
    ", promoted: " ++ toString s.promoted ++ ", depth: " ++ toString s.depth ++
    ", leaves: " ++ toString s.leaves

end Stats

namespace Forest

/-- The number of discussions that begin with a reply to a post that is not there. -/
def promoted (f : Forest Post) : Nat :=
  f.roots.countP fun t => t.item.parent.isSome

/-- The numbers of a forest. -/
def stats (f : Forest Post) : Stats where
  posts := f.size
  threads := f.roots.length
  promoted := f.promoted
  depth := f.depth
  leaves := f.leaves.length

/-- The line of a post in a flat listing; none if there is no room for the indentation. Its width is a word,
so it wraps around. -/
def flatLine? (indent : UInt64) (depth : Nat) (p : Post) : Option String :=
  (Text.spaces? (UInt64.ofNat depth * indent).toNat).map (· ++ p.summary)

/-- The lines of a flat listing; none if it breaks off because there is no room for an indentation. -/
def flatLines? (indent : UInt64) (f : Forest Post) : Option (List String) :=
  f.entries.mapM fun e => flatLine? indent e.1 e.2

/-- The posts in pre-order, indented by their depth, as if there were room for every indentation. -/
def flatLines (indent : UInt64) (f : Forest Post) : List String :=
  f.entries.map fun e => String.ofList (List.replicate (e.1 * indent.toNat) ' ') ++ e.2.summary

/-- The posts without replies. -/
def leafLines (f : Forest Post) : List String :=
  f.leaves.map Post.summary

/-- The drawing of each discussion. -/
def postDrawings (f : Forest Post) : List String :=
  f.drawings Post.summary

/-- The data of a forest of posts. -/
def postData (f : Forest Post) : Data :=
  f.toData Post.toData

end Forest

end Discussion
