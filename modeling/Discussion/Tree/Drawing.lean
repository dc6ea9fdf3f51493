import Discussion.Tree.Walk

/-!
# Drawing trees with box characters

A tree is drawn with one line for each item: the root first, then everything below it in pre-order,
behind branches that show whose reply it is.

```text
a
├── b
│   └── c
└── d
```

`Tree.labels` first replaces every item by its text. It works on two lists: the trees still to be
entered or left, and the finished trees. A tree that is left takes as many finished trees as it has
replies and becomes a finished tree itself. `Tree.drawing` then writes the lines.
-/

namespace Discussion

universe u

variable {α : Type u}

/-- What the relabelling of a tree still has to do. -/
inductive Relabelling.Task (α : Type u) where
  /-- The tree and everything below it are still to be relabelled. -/
  | enter (t : Tree α)
  /-- Everything below the tree is relabelled. -/
  | leave (t : Tree α)

/-- A relabelling in progress. -/
structure Relabelling (α : Type u) where
  /-- What is still to be done, the next task first. -/
  tasks : List (Relabelling.Task α)
  /-- The relabelled trees that no other tree has taken yet, the latest first. -/
  finished : List (Tree String)

namespace Relabelling

/-- One task; `none` when there is nothing left to do. -/
def step (label : α → String) : Relabelling α → Option (Relabelling α)
  | ⟨[], _⟩ => none
  | ⟨.enter t :: tasks, finished⟩ =>
    some ⟨t.replies.map .enter ++ .leave t :: tasks, finished⟩
  | ⟨.leave t :: tasks, finished⟩ =>
    let n := t.replies.length
    some ⟨tasks, .node (label t.item) (finished.take n).reverse :: finished.drop n⟩

/-- The number of steps that a task costs: two for each item that is still to be entered. -/
def Task.cost : Task α → Nat
  | .enter t => 2 * t.count
  | .leave _ => 1

/-- The number of steps that a list of tasks costs. -/
def totalCost : List (Task α) → Nat
  | [] => 0
  | task :: tasks => task.cost + totalCost tasks

/-- The number of steps still to be taken. -/
def remaining (r : Relabelling α) : Nat :=
  totalCost r.tasks

theorem totalCost_append (xs ys : List (Task α)) :
    totalCost (xs ++ ys) = totalCost xs + totalCost ys := by
  induction xs with
  | nil => simp [totalCost]
  | cons x xs ih => simp [totalCost, ih, Nat.add_assoc]

theorem totalCost_map_enter (ts : List (Tree α)) :
    totalCost (ts.map Task.enter) = 2 * Tree.countAll ts := by
  induction ts with
  | nil => rfl
  | cons t ts ih =>
    simp only [List.map_cons, totalCost, Tree.countAll_cons, ih, Task.cost]
    omega

theorem remaining_step {label : α → String} {r r' : Relabelling α}
    (h : r.step label = some r') : r.remaining = r'.remaining + 1 := by
  obtain ⟨tasks, finished⟩ := r
  match tasks with
  | [] => simp [step] at h
  | .enter t :: tasks =>
    simp only [step, Option.some.injEq] at h
    subst h
    simp only [remaining, totalCost_append, totalCost_map_enter, totalCost, Task.cost,
      Tree.count_eq t]
    omega
  | .leave t :: tasks =>
    simp only [step, Option.some.injEq] at h
    subst h
    simp only [remaining, totalCost, Task.cost]
    omega

/-- Takes all steps. -/
def run (label : α → String) (r : Relabelling α) : Relabelling α :=
  match _h : r.step label with
  | none => r
  | some r' => run label r'
termination_by r.remaining
decreasing_by rw [remaining_step _h]; exact Nat.lt_succ_self _

end Relabelling

namespace Tree

/-- The tree of the texts of the items. -/
def labels (label : α → String) (t : Tree α) : Tree String :=
  (((Relabelling.mk [.enter t] []).run label).finished.head?).getD (.leaf (label t.item))

/-- A tree of texts that is still to be drawn. -/
structure Branch where
  /-- The tree. -/
  tree : Tree String
  /-- Whether it is the last reply of its parent. -/
  last : Bool
  /-- What the lines of its siblings begin with. -/
  margin : String

namespace Branch

/-- The branches of the replies `ts` to a node. -/
def ofReplies (margin : String) : List (Tree String) → List Branch
  | [] => []
  | t :: ts => ⟨t, ts.isEmpty, margin⟩ :: ofReplies margin ts

/-- The line of a branch, the item behind its connector. -/
def line (b : Branch) : String :=
  b.margin ++ (if b.last then "└── " else "├── ") ++ b.tree.item

/-- What the lines of the replies begin with. -/
def replyMargin (b : Branch) : String :=
  b.margin ++ (if b.last then "    " else "│   ")

theorem countAll_ofReplies (margin : String) (ts : List (Tree String)) :
    countAll ((ofReplies margin ts).map Branch.tree) = countAll ts := by
  induction ts with
  | nil => rfl
  | cons t ts ih => simp [ofReplies, ih]

end Branch

/-- Puts the lines of the branches, and of everything below them, in front of `acc`, the last line
foremost. -/
def collectLines (acc : List String) : List Branch → List String
  | [] => acc
  | b :: rest =>
    collectLines (b.line :: acc) (Branch.ofReplies b.replyMargin b.tree.replies ++ rest)
termination_by bs => countAll (bs.map Branch.tree)
decreasing_by
  simp [countAll_append, Branch.countAll_ofReplies, count_eq b.tree]

/-- The lines of the drawing of a tree of texts. -/
def lines (t : Tree String) : List String :=
  t.item :: (collectLines [] (Branch.ofReplies "" t.replies)).reverse

/-- The drawing of a tree, every line ended by a line feed. -/
def drawing (label : α → String) (t : Tree α) : String :=
  String.join ((t.labels label).lines.map (· ++ "\n"))

end Tree

/-- The drawing of each discussion. -/
def Forest.drawings (label : α → String) (f : Forest α) : List String :=
  f.roots.map (Tree.drawing label)

end Discussion
