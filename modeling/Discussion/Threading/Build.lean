import Std.Data.HashMap
import Discussion.Arena.ToForest
import Discussion.Threading.Basic

/-!
# Threading a flat collection

`Forest.thread` turns a list of items into a forest. An item without parent, or whose parent is not in
the list, becomes a root; every other item is attached below its parent. Roots and replies keep the
order of the list.

1. `positions` finds each identity's place in the list, and refuses an identity that occurs twice.
2. `Plan` notes, by position, who starts a discussion and who replies to whom.
3. `Weaving` moves the items into an arena, following the plan from the starters down, so that an
   item is inserted after its parent and in pre-order.
4. An item that is left over lies on a cycle of parents or below one.
-/

namespace Discussion

universe u v

variable {α : Type u} {ι : Type v}

/-- The position of each identity in the list, counted from `pos`; an error names the first identity
that was seen before. -/
def positions [BEq ι] [Hashable ι] [Threaded α ι] (seen : Std.HashMap ι Nat) (pos : Nat) :
    List α → Except (ThreadingError ι) (Std.HashMap ι Nat)
  | [] => .ok seen
  | x :: xs =>
    if seen.contains (Threaded.id x) then .error (.duplicateId (Threaded.id x))
    else positions (seen.insert (Threaded.id x) pos) (pos + 1) xs

/-- Who starts a discussion and who replies to whom, by position and in the order of the list. -/
structure Plan where
  /-- The positions of the items that become roots. -/
  starters : Array Nat
  /-- For each position, the positions of the replies to it. -/
  replies : Array (Array Nat)

namespace Plan

/-- The plan in which no item has a place yet. -/
def blank (size : Nat) : Plan :=
  ⟨#[], Array.replicate size #[]⟩

/-- Gives the item at `pos` its place. -/
def place [BEq ι] [Hashable ι] [Threaded α ι] (positions : Std.HashMap ι Nat) (plan : Plan)
    (x : α) (pos : Nat) : Plan :=
  match (Threaded.parent? x).bind (positions[·]?) with
  | some parent => { plan with replies := plan.replies.modify parent (·.push pos) }
  | none => { plan with starters := plan.starters.push pos }

/-- The plan for a list of items. -/
def ofItems [BEq ι] [Hashable ι] [Threaded α ι] (positions : Std.HashMap ι Nat) (xs : List α) :
    Plan :=
  xs.zipIdx.foldl (fun plan (x, pos) => plan.place positions x pos) (blank xs.length)

end Plan

/-- The items on their way into the arena. -/
structure Weaving (α : Type u) where
  /-- The positions to insert with the indices of their parents, the next one first. -/
  todo : List (Nat × Option Arena.Index)
  /-- The items that have not been inserted yet, by position. -/
  slots : Array (Option α)
  /-- The items inserted so far. -/
  arena : Arena α

namespace Weaving

/-- Nothing inserted, and the starters of the plan to come. -/
def start (plan : Plan) (xs : List α) : Weaving α :=
  ⟨plan.starters.toList.map (·, none), (xs.map some).toArray, .empty⟩

/-- Inserts the next item and puts its replies in front of what is to come. A position whose item has
been inserted is passed over. -/
def step (plan : Plan) : Weaving α → Weaving α
  | ⟨[], slots, arena⟩ => ⟨[], slots, arena⟩
  | ⟨(pos, parent) :: todo, slots, arena⟩ =>
    match slots[pos]? with
    | some (some x) =>
      let i := arena.nextIndex
      let replies := (plan.replies[pos]?.getD #[]).toList.map (·, some i)
      ⟨replies ++ todo, slots.setIfInBounds pos none, arena.insert x parent⟩
    | _ => ⟨todo, slots, arena⟩

/-- The number of items that have not been inserted. -/
def waiting (w : Weaving α) : Nat :=
  w.slots.countP Option.isSome

theorem waiting_step (plan : Plan) {w : Weaving α} (h : w.todo ≠ []) :
    (w.step plan).waiting < w.waiting ∨
      (w.step plan).waiting = w.waiting ∧ (w.step plan).todo.length < w.todo.length := by
  obtain ⟨todo, slots, arena⟩ := w
  match todo with
  | [] => exact absurd rfl h
  | (pos, parent) :: todo =>
    simp only [step]
    split
    · next x hx =>
      obtain ⟨hp, hx⟩ := Array.getElem?_eq_some_iff.1 hx
      left
      have hpos : 0 < slots.countP Option.isSome :=
        Array.countP_pos_iff.2 ⟨_, Array.getElem_mem hp, by simp [hx]⟩
      simp only [waiting, Array.setIfInBounds, dif_pos hp, Array.countP_set, hx,
        Option.isSome_some, Option.isSome_none, if_true, Bool.false_eq_true, if_false]
      omega
    · exact .inr ⟨rfl, Nat.lt_succ_self _⟩

/-- Inserts everything that the plan leads to. -/
def run (plan : Plan) (w : Weaving α) : Weaving α :=
  if _h : w.todo.isEmpty then w else run plan (w.step plan)
termination_by (w.waiting, w.todo.length)
decreasing_by
  rcases waiting_step plan (mt List.isEmpty_iff.2 _h) with h | ⟨h₁, h₂⟩
  · exact Prod.Lex.left _ _ h
  · rw [h₁]; exact Prod.Lex.right _ h₂

/-- The first item that has not been inserted. -/
def stranded? (w : Weaving α) : Option α :=
  w.slots.findSome? id

end Weaving

/-- Threads a list of items into a forest. -/
def Forest.thread [BEq ι] [Hashable ι] [Threaded α ι] (xs : List α) :
    Except (ThreadingError ι) (Forest α) :=
  match positions ∅ 0 xs with
  | .error e => .error e
  | .ok positions =>
    let plan := Plan.ofItems positions xs
    let woven := (Weaving.start plan xs).run plan
    match woven.stranded? with
    | some x => .error (.cycle (Threaded.id x))
    | none => .ok woven.arena.toForest

end Discussion
