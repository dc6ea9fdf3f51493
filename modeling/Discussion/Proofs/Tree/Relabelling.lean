import Mathlib.Logic.Relation
import Discussion.Proofs.Tree.Nodes
import Discussion.Tree.Drawing

/-!
# The tree of texts

The items of a tree are replaced by their texts with two lists: one of what is still to be done, and one
of the finished trees that no other tree has taken. A tree that is left takes as many finished trees as it
has replies, whichever trees these are. What makes them its replies is a relation between the two lists
that holds in the middle of the work.

* `Relabelling.Comes label r r'`: the work goes on from `r` to `r'`.
* `Relabelling.EndsIn label made tasks finished`: if these tasks are done with these finished trees, every
  tree that is left finds the trees of its replies on top, and in the end there is `made` alone.

Results:
1. `EndsIn.step`, `EndsIn.comes`: a step keeps this, and so does the work as it goes on.
2. `comes_run`: the work goes on until nothing is to be done.
3. `Tree.labels_eq_relabel`: the tree of texts has each text in the place of its item.
4. `finished_suffice`: no tree that is left lacks a reply, and one tree is left over.
-/

namespace Discussion

universe u

variable {α : Type u}

namespace Relabelling

variable {label : α → String} {made : Tree String} {r r' : Relabelling α}

/-- Steps lead from the one state to the other. -/
def Comes (label : α → String) : Relabelling α → Relabelling α → Prop :=
  Relation.ReflTransGen fun r r' => r.step label = some r'

/-- Each tree that is left finds the trees of its replies on top, the last one foremost, and in the end
there is one tree. -/
def EndsIn (label : α → String) (made : Tree String) :
    List (Task α) → List (Tree String) → Prop
  | [], finished => finished = [made]
  | .enter t :: tasks, finished => EndsIn label made tasks (t.relabel label :: finished)
  | .leave t :: tasks, finished =>
    ∃ below, finished = (t.replies.map (Tree.relabel label)).reverse ++ below ∧
      EndsIn label made tasks (t.relabel label :: below)

/-! ## Steps -/

theorem tasks_eq_nil_of_no_step (h : r.step label = none) : r.tasks = [] := by
  obtain ⟨tasks, finished⟩ := r
  cases tasks with
  | nil => rfl
  | cons task tasks => cases task <;> cases h

/-- A tree that is left takes the finished trees of its replies, which lie on top. -/
theorem step_leave (label : α → String) (t : Tree α) (tasks : List (Task α))
    (below : List (Tree String)) :
    (Relabelling.mk (.leave t :: tasks)
      ((t.replies.map (Tree.relabel label)).reverse ++ below)).step label =
        some ⟨tasks, t.relabel label :: below⟩ := by
  obtain ⟨x, ts⟩ := t
  have hlength : (ts.map (Tree.relabel label)).reverse.length = ts.length := by
    rw [List.length_reverse, List.length_map]
  rw [step, Tree.replies_node, Tree.item_node, List.take_left' hlength, List.drop_left' hlength,
    List.reverse_reverse, Tree.relabel, Tree.relabelAll_eq_map]

/-- Entering the replies of a tree puts their trees on top, the last one foremost. -/
theorem endsIn_enters {ts : List (Tree α)} {tasks : List (Task α)} {finished : List (Tree String)} :
    EndsIn label made (ts.map .enter ++ tasks) finished ↔
      EndsIn label made tasks ((ts.map (Tree.relabel label)).reverse ++ finished) := by
  induction ts generalizing finished with
  | nil => rfl
  | cons t ts ih =>
    rw [List.map_cons, List.cons_append, EndsIn, ih, List.map_cons, List.reverse_cons,
      List.append_assoc]
    rfl

theorem EndsIn.step (h : EndsIn label made r.tasks r.finished) (hstep : r.step label = some r') :
    EndsIn label made r'.tasks r'.finished := by
  obtain ⟨tasks, finished⟩ := r
  match tasks with
  | [] => cases hstep
  | .enter t :: tasks =>
    -- when the turn of the task to leave `t` comes, the trees of its replies lie on what was there before
    cases hstep
    exact endsIn_enters.2 ⟨finished, rfl, h⟩
  | .leave t :: tasks =>
    obtain ⟨below, hbelow, hrest⟩ := h
    obtain rfl : finished = (t.replies.map (Tree.relabel label)).reverse ++ below := hbelow
    rw [step_leave] at hstep
    cases hstep
    exact hrest

/-- A tree that is left takes the trees of its replies, in their order. -/
theorem EndsIn.leave {t : Tree α} {tasks : List (Task α)} {finished : List (Tree String)}
    (h : EndsIn label made (.leave t :: tasks) finished) :
    t.replies.length ≤ finished.length ∧
      (finished.take t.replies.length).reverse = t.replies.map (Tree.relabel label) ∧
      (Relabelling.mk (.leave t :: tasks) finished).step label =
        some ⟨tasks, t.relabel label :: finished.drop t.replies.length⟩ := by
  obtain ⟨below, rfl, _⟩ := h
  have hlength : (t.replies.map (Tree.relabel label)).reverse.length = t.replies.length := by
    rw [List.length_reverse, List.length_map]
  refine ⟨?_, ?_, ?_⟩
  · rw [List.length_append, hlength]
    exact Nat.le_add_right _ _
  · rw [List.take_left' hlength, List.reverse_reverse]
  · rw [step_leave, List.drop_left' hlength]

theorem EndsIn.comes (h : EndsIn label made r.tasks r.finished) (hr : Comes label r r') :
    EndsIn label made r'.tasks r'.finished := by
  induction hr with
  | refl => exact h
  | tail _ hstep ih => exact ih.step hstep

/-! ## The end -/

theorem comes_run (label : α → String) (r : Relabelling α) :
    Comes label r (r.run label) ∧ (r.run label).tasks = [] := by
  induction r using run.induct label with
  | case1 r hnone =>
    have hrun : r.run label = r := by
      rw [run]
      split
      · rfl
      · next r' hsome => cases hnone.symm.trans hsome
    rw [hrun]
    exact ⟨.refl, tasks_eq_nil_of_no_step hnone⟩
  | case2 r r' hsome ih =>
    have hrun : r.run label = r'.run label := by
      rw [run]
      split
      · next hnone => cases hnone.symm.trans hsome
      · next r'' hsome' => rw [Option.some.inj (hsome'.symm.trans hsome)]
    rw [hrun]
    exact ⟨ih.1.head hsome, ih.2⟩

theorem finished_run (label : α → String) (t : Tree α) :
    ((Relabelling.mk [.enter t] []).run label).finished = [t.relabel label] := by
  have hstart : EndsIn label (t.relabel label) [.enter t] [] := rfl
  obtain ⟨hcomes, hdone⟩ := comes_run label ⟨[.enter t], []⟩
  have hend := hstart.comes hcomes
  rwa [hdone] at hend

end Relabelling

theorem Tree.labels_eq_relabel (label : α → String) (t : Tree α) :
    t.labels label = t.relabel label := by
  rw [labels, Relabelling.finished_run]
  rfl

namespace Relabelling

/-- Whenever a tree is left, there are at least as many finished trees as it has replies, and those that it
takes are the trees of its replies, in their order; the others stay. The work comes to an end, and then
there is one finished tree, which is the answer: nothing has to stand in for it. -/
theorem finished_suffice (label : α → String) (t : Tree α) :
    (∀ r, Comes label ⟨[.enter t], []⟩ r → ∀ u tasks, r.tasks = .leave u :: tasks →
      u.replies.length ≤ r.finished.length ∧
      (r.finished.take u.replies.length).reverse = u.replies.map (Tree.relabel label) ∧
      r.step label = some ⟨tasks, u.relabel label :: r.finished.drop u.replies.length⟩) ∧
    Comes label ⟨[.enter t], []⟩ ((Relabelling.mk [.enter t] []).run label) ∧
    ((Relabelling.mk [.enter t] []).run label).tasks = [] ∧
    ((Relabelling.mk [.enter t] []).run label).finished = [t.labels label] ∧
    t.labels label = t.relabel label := by
  obtain ⟨hcomes, hdone⟩ := comes_run label ⟨[.enter t], []⟩
  refine ⟨fun r hr u tasks htasks => ?_, hcomes, hdone, ?_, Tree.labels_eq_relabel label t⟩
  · have hstart : EndsIn label (t.relabel label) [.enter t] [] := rfl
    have hmiddle := hstart.comes hr
    obtain ⟨_, finished⟩ := r
    obtain rfl := htasks
    exact hmiddle.leave
  · rw [finished_run, Tree.labels_eq_relabel]

/-- When `b` is left its reply is finished, and its sibling `d` has not been entered. -/
theorem finished_suffice_of_letters :
    let t : Tree String := .node "a" [.node "b" [.leaf "c"], .leaf "d"]
    let r : Relabelling String :=
      ⟨[.leave (.node "b" [.leaf "c"]), .enter (.leaf "d"), .leave t], [.leaf "c"]⟩
    Comes id ⟨[.enter t], []⟩ r ∧ (r.finished.take 1).reverse = [.leaf "c"] ∧
      ((Relabelling.mk [.enter t] []).run id).finished.length = 1 := by
  intro t r
  obtain ⟨hleave, _, _, hone, _⟩ := finished_suffice id t
  have hr : Comes id ⟨[.enter t], []⟩ r :=
    .head rfl (.head rfl (.head rfl (.single rfl)))
  refine ⟨hr, (hleave r hr _ _ rfl).2.1, ?_⟩
  rw [hone]
  rfl

end Relabelling

end Discussion
