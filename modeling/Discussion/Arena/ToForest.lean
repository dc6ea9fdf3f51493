import Std.Data.HashMap
import Discussion.Arena.PostOrder
import Discussion.Tree.Basic

/-!
# From an arena to a forest

The nodes are taken in post-order. Each becomes a tree whose replies are the trees already built for
the indices that it lists; a tree that has found its place is no longer available to others.
-/

namespace Discussion.Arena

universe u

variable {α : Type u}

/-- The trees built so far that no other tree has taken. -/
abbrev Built (α : Type u) := Std.HashMap Index (Tree α)

/-- Takes out the trees built for the given indices, in their order. An index without a tree is
passed over. -/
def Built.takeAll (built : Built α) (is : Array Index) : List (Tree α) × Built α :=
  let (taken, built) := is.foldl
    (fun (taken, built) i =>
      match built[i]? with
      | some t => (t :: taken, built.erase i)
      | none => (taken, built))
    ([], built)
  (taken.reverse, built)

/-- Builds the tree of one node. What is listed is what the arena has at the index when its turn comes to be
taken out, because no index is listed twice. -/
def Built.add (built : Built α) (listed : Index × Node α) : Built α :=
  let (replies, built) := built.takeAll listed.2.replies
  built.insert listed.1 (.node listed.2.item replies)

/-- The forest of the nodes below the roots. -/
def toForest (a : Arena α) : Forest α :=
  let built := a.postorder.foldl Built.add ∅
  ⟨(built.takeAll a.roots).1⟩

end Discussion.Arena
