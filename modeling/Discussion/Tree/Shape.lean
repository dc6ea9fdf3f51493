import Discussion.Tree.Preorder

/-!
# Size, depth and leaves

Measures of trees and forests, each taken on one walk.
-/

namespace Discussion

universe u

variable {α : Type u}

namespace Walk

/-- The number of levels the walk still reaches: one more than the deepest level to come. -/
def depth (w : Walk α) : Nat :=
  w.fold (fun deepest level _ => max deepest (level + 1)) 0

end Walk

namespace Tree

/-- The number of items of the tree. -/
def size (t : Tree α) : Nat :=
  t.walk.toList.length

/-- The number of items on the longest chain from the root down to a leaf. -/
def depth (t : Tree α) : Nat :=
  t.walk.depth

end Tree

namespace Forest

/-- The number of items of all trees. -/
def size (f : Forest α) : Nat :=
  f.walk.toList.length

/-- The number of items on the longest chain from a root down to a leaf. -/
def depth (f : Forest α) : Nat :=
  f.walk.depth

/-- The items without replies, in pre-order. -/
def leaves (f : Forest α) : List α :=
  (f.walk.toList.filter fun v => v.2.isLeaf).map fun v => v.2.item

end Forest

end Discussion
