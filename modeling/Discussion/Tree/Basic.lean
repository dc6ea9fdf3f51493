/-!
# Reply trees

A discussion is a tree: an item with the trees of its direct replies, in the order in which they
were given. A forest is the ordered list of discussions of one collection.

`Tree.count` is the number of items, by recursion on the tree. It is the measure by which the
stack-based traversals of `Discussion.Tree.Walk` end.
-/

namespace Discussion

universe u

/-- An item with the trees of its direct replies. -/
inductive Tree (α : Type u) where
  | node (item : α) (replies : List (Tree α))

/-- An ordered list of discussions. -/
structure Forest (α : Type u) where
  /-- The trees of the items that start a discussion. -/
  roots : List (Tree α)

namespace Tree

variable {α : Type u}

/-- The item at the root. -/
def item : Tree α → α
  | node x _ => x

/-- The trees of the direct replies. -/
def replies : Tree α → List (Tree α)
  | node _ ts => ts

/-- An item without replies. -/
def leaf (x : α) : Tree α :=
  node x []

/-- Whether nobody replied to the item at the root. -/
def isLeaf (t : Tree α) : Bool :=
  t.replies.isEmpty

@[simp] theorem item_node (x : α) (ts : List (Tree α)) : (node x ts).item = x := rfl

@[simp] theorem replies_node (x : α) (ts : List (Tree α)) : (node x ts).replies = ts := rfl

mutual

/-- The number of items of a tree. -/
def count : Tree α → Nat
  | node _ ts => countAll ts + 1

/-- The number of items of a list of trees. -/
def countAll : List (Tree α) → Nat
  | [] => 0
  | t :: ts => count t + countAll ts

end

@[simp] theorem countAll_nil : countAll ([] : List (Tree α)) = 0 := rfl

@[simp] theorem countAll_cons (t : Tree α) (ts : List (Tree α)) :
    countAll (t :: ts) = t.count + countAll ts := rfl

theorem count_eq (t : Tree α) : t.count = countAll t.replies + 1 := by
  cases t; rfl

theorem countAll_append (ts us : List (Tree α)) :
    countAll (ts ++ us) = countAll ts + countAll us := by
  induction ts with
  | nil => simp
  | cons t ts ih => simp [ih, Nat.add_assoc]

end Tree

namespace Forest

variable {α : Type u}

/-- The forest without discussions. -/
def empty : Forest α :=
  ⟨[]⟩

/-- Whether there is no discussion. -/
def isEmpty (f : Forest α) : Bool :=
  f.roots.isEmpty

end Forest

end Discussion
