import Discussion.Tree.Walk

/-!
# Forests as pre-order listings

A forest is written down as the list of its items in pre-order, each with its depth, and built again
from such a list.

`Forest.ofPreorder` reads any list of depths. It keeps the open path from a root down to the last
item read; an entry of depth `d` closes the path until at most `d` items are open, and then becomes
a reply to the innermost one that is still open. So an entry that is deeper than the path is long
replies to the item before it.
-/

namespace Discussion

universe u v

variable {α : Type u} {β : Type v}

/-- An item whose replies are still being read. -/
structure OpenItem (α : Type u) where
  /-- The item. -/
  item : α
  /-- The replies read so far, the latest first. -/
  replies : List (Tree α) := []

/-- The tree of an item to which no further reply comes. -/
def OpenItem.close (o : OpenItem α) : Tree α :=
  .node o.item o.replies.reverse

/-- A forest that is being read from a pre-order listing. -/
structure Assembly (α : Type u) where
  /-- The open items from the last one read up to its root. -/
  path : List (OpenItem α) := []
  /-- The number of open items. -/
  level : Nat := 0
  /-- The finished discussions, the latest first. -/
  roots : List (Tree α) := []

namespace Assembly

/-- Closes the innermost open item: it becomes the last reply of the next one, or the last root. -/
def closeLast : Assembly α → Assembly α
  | ⟨[], level, roots⟩ => ⟨[], level, roots⟩
  | ⟨[o], level, roots⟩ => ⟨[], level - 1, o.close :: roots⟩
  | ⟨o :: p :: path, level, roots⟩ =>
    ⟨{ p with replies := o.close :: p.replies } :: path, level - 1, roots⟩

/-- Closes the innermost open items, as many as given. -/
def closeMany : Nat → Assembly α → Assembly α
  | 0, a => a
  | n + 1, a => closeMany n a.closeLast

/-- Closes open items until at most `depth` are open. -/
def closeTo (depth : Nat) (a : Assembly α) : Assembly α :=
  closeMany (a.level - depth) a

/-- Reads the next entry of the listing. -/
def push (a : Assembly α) (entry : Nat × α) : Assembly α :=
  let b := a.closeTo entry.1
  { b with path := { item := entry.2 } :: b.path, level := b.level + 1 }

/-- The trees read, once the listing has ended. -/
def finish (a : Assembly α) : List (Tree α) :=
  (a.closeTo 0).roots.reverse

end Assembly

/-- The trees that a pre-order listing describes. -/
def Tree.listOfPreorder (entries : List (Nat × α)) : List (Tree α) :=
  (entries.foldl Assembly.push {}).finish

namespace Forest

/-- The forest that a pre-order listing describes, roots at depth 0. -/
def ofPreorder (entries : List (Nat × α)) : Forest α :=
  ⟨Tree.listOfPreorder entries⟩

/-- The pre-order listing of a forest: every item with its depth, roots at depth 0. -/
def entries (f : Forest α) : List (Nat × α) :=
  f.walk.toList.map fun v => (v.1, v.2.item)

/-- The items in pre-order. -/
def items (f : Forest α) : List α :=
  f.walk.toList.map fun v => v.2.item

/-- Applies `g` to every item. -/
def map (g : α → β) (f : Forest α) : Forest β :=
  .ofPreorder (f.entries.map fun e => (e.1, g e.2))

end Forest

namespace Tree

/-- The pre-order listing of a tree, its root at depth 0. -/
def entries (t : Tree α) : List (Nat × α) :=
  t.walk.toList.map fun v => (v.1, v.2.item)

/-- Applies `g` to every item. -/
def map (g : α → β) (t : Tree α) : Tree β :=
  .node (g t.item)
    (listOfPreorder ((Walk.ofTrees t.replies).toList.map fun v => (v.1, g v.2.item)))

end Tree

/-! ## Equality

Two trees are compared by their listings, entry by entry. -/

instance [BEq α] : BEq (Tree α) where
  beq t u := t.entries == u.entries

instance [BEq α] : BEq (Forest α) where
  beq f g := f.roots == g.roots

end Discussion
