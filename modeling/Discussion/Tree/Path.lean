import Discussion.Tree.Basic

/-!
# Addressing nodes

A node of a forest is addressed by the positions on the way to it: the first one among the roots,
each further one among the replies of the node before. The empty path addresses no node, but it
addresses a list of trees, the roots.
-/

namespace Discussion

universe u

variable {α : Type u}

/-- The tree at a path below `t`. -/
def Tree.get? (t : Tree α) : List Nat → Option (Tree α)
  | [] => some t
  | i :: path => t.replies[i]?.bind fun r => r.get? path

/-- Changes the list of replies of the node at a path, or the list itself if the path is empty.
Where no such node is, nothing changes. -/
def Tree.modifyAt (g : List (Tree α) → List (Tree α)) :
    List Nat → List (Tree α) → List (Tree α)
  | [], ts => g ts
  | i :: path, ts => ts.modify i fun t => .node t.item (modifyAt g path t.replies)

namespace Forest

/-- The tree at a path. -/
def get? (f : Forest α) : List Nat → Option (Tree α)
  | [] => none
  | i :: path => f.roots[i]?.bind fun t => t.get? path

/-- Changes the list of trees that a path addresses. -/
def modifyAt (f : Forest α) (path : List Nat) (g : List (Tree α) → List (Tree α)) : Forest α :=
  ⟨Tree.modifyAt g path f.roots⟩

/-- The forest whose only root is the tree at a path; empty if there is none. -/
def take (f : Forest α) (path : List Nat) : Forest α :=
  ⟨(f.get? path).toList⟩

/-- The forest of the replies to the node at a path; empty if there is none. -/
def repliesAt (f : Forest α) (path : List Nat) : Forest α :=
  ⟨((f.get? path).map Tree.replies).getD []⟩

end Forest

end Discussion
