import Discussion.Tree.Basic

/-!
# Walking a forest

Pre-order traversals that keep the trees still to be visited on a list of their own, so that a long
chain of replies needs no deep recursion.

* `Walk` lends out the nodes, each with its level below the root it was reached from.
* `Flattening` takes the trees apart and hands over the items alone.

Each has one step, `next?`, that says what comes next and what is left, and a function that takes
all steps. `Walk.remaining` and `Flattening.remaining` count the items still to come.
-/

namespace Discussion

universe u v

variable {α : Type u} {β : Type v}

/-- A pre-order visit in progress. -/
structure Walk (α : Type u) where
  /-- The trees still to be visited with their levels, the next one first. -/
  pending : List (Nat × Tree α)

namespace Walk

/-- The visit of a list of trees from its start. -/
def ofTrees (ts : List (Tree α)) : Walk α :=
  ⟨ts.map fun t => (0, t)⟩

/-- The next node with its level, and the visit after it. -/
def next? : Walk α → Option ((Nat × Tree α) × Walk α)
  | ⟨[]⟩ => none
  | ⟨(level, t) :: rest⟩ =>
    some ((level, t), ⟨t.replies.map (fun r => (level + 1, r)) ++ rest⟩)

/-- The number of nodes still to come. -/
def remaining (w : Walk α) : Nat :=
  Tree.countAll (w.pending.map (·.2))

theorem remaining_next? {w w' : Walk α} {v : Nat × Tree α} (h : w.next? = some (v, w')) :
    w.remaining = w'.remaining + 1 := by
  obtain ⟨pending⟩ := w
  cases pending with
  | nil => simp [next?] at h
  | cons p rest =>
    obtain ⟨level, t⟩ := p
    simp only [next?, Option.some.injEq, Prod.mk.injEq] at h
    obtain ⟨_, rfl⟩ := h
    simp [remaining, Tree.countAll_append, Tree.count_eq t, Function.comp_def]
    omega

/-- Takes all steps of the visit, combining the nodes from the first to the last. -/
def fold (f : β → Nat → Tree α → β) (acc : β) (w : Walk α) : β :=
  match _h : w.next? with
  | none => acc
  | some ((level, t), rest) => fold f (f acc level t) rest
termination_by w.remaining
decreasing_by rw [remaining_next? _h]; exact Nat.lt_succ_self _

/-- All nodes still to come with their levels. -/
def toList (w : Walk α) : List (Nat × Tree α) :=
  (w.fold (fun acc level t => (level, t) :: acc) []).reverse

end Walk

/-- A pre-order traversal in progress that takes the trees apart. -/
structure Flattening (α : Type u) where
  /-- The trees still to be taken apart, the next one first. -/
  pending : List (Tree α)

namespace Flattening

/-- The next item, and the traversal after it. -/
def next? : Flattening α → Option (α × Flattening α)
  | ⟨[]⟩ => none
  | ⟨.node x ts :: rest⟩ => some (x, ⟨ts ++ rest⟩)

/-- The number of items still to come. -/
def remaining (s : Flattening α) : Nat :=
  Tree.countAll s.pending

theorem remaining_next? {s s' : Flattening α} {x : α} (h : s.next? = some (x, s')) :
    s.remaining = s'.remaining + 1 := by
  obtain ⟨pending⟩ := s
  cases pending with
  | nil => simp [next?] at h
  | cons t rest =>
    obtain ⟨y, ts⟩ := t
    simp only [next?, Option.some.injEq, Prod.mk.injEq] at h
    obtain ⟨_, rfl⟩ := h
    simp [remaining, Tree.countAll_append, Tree.count]
    omega

/-- Takes all steps, putting the items in front of `acc`, the last one foremost. -/
def collect (acc : List α) (s : Flattening α) : List α :=
  match _h : s.next? with
  | none => acc
  | some (x, rest) => collect (x :: acc) rest
termination_by s.remaining
decreasing_by rw [remaining_next? _h]; exact Nat.lt_succ_self _

/-- All items still to come. -/
def toList (s : Flattening α) : List α :=
  (s.collect []).reverse

end Flattening

/-- The visit of a tree, its root at level 0. -/
def Tree.walk (t : Tree α) : Walk α :=
  .ofTrees [t]

/-- The visit of a forest, its roots at level 0. -/
def Forest.walk (f : Forest α) : Walk α :=
  .ofTrees f.roots

/-- The items of a forest in pre-order: each one is followed by everything below it. -/
def Forest.flatten (f : Forest α) : List α :=
  Flattening.toList ⟨f.roots⟩

end Discussion
