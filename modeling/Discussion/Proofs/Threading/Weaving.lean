import Discussion.Proofs.Arena.Unfolding
import Discussion.Proofs.Threading.Plan

/-!
# Weaving a plan

The loop that moves the items into the arena takes the positions that the plan leads to, each of them
once. `Weaving.Tracks plan xs placed w` is its invariant: it holds between the state `w`, the plan and
the positions `placed` in the order in which their items were inserted. `Weaving.Turns` are the turns of
the loop, with the positions that they take from what is to come and those that they put there.

Results:
1. `Tracks.start`, `Tracks.step`, `Turns.tracks`: the invariant holds at first, a step puts one more
   position, and so the invariant holds after any number of turns.
2. `Turns.run`, `Tracks.run`: the loop ends with nothing to do.
3. `Tracks.mem_placed_iff`: at the end the positions inserted are those that the plan leads to.
4. `Tracks.map_under`: at the end the arena lists under each index the items that the plan lists under
   its position.
-/

namespace Discussion

universe u

open Arena (Index)

variable {α : Type u}

namespace Weaving

/-- The position of the item at an index, if items were inserted in this order. -/
def positionAt (placed : List Nat) (i : Index) : Option Nat :=
  placed[i.slot]?

/-- What has been done and what is to come agree with the plan. -/
structure Tracks (plan : Plan) (xs : List α) (placed : List Nat) (w : Weaving α) : Prop where
  coherent : w.arena.Coherent
  -- an index is handed out for each position, in this order
  size : w.arena.size = placed.length
  items : ∀ i : Index, i.Within w.arena.size →
    (w.arena.label? i).map Prod.fst = (positionAt placed i).bind (xs[·]?)
  slots : ∀ pos, w.slots[pos]? = if pos ∈ placed then some none else xs[pos]?.map some
  live : ∀ e ∈ w.todo, ∀ p ∈ e.2, p.Within w.arena.size
  -- what is listed under an index, and what is still to be listed there, is what the plan says
  lists : ∀ q : Option Index, (∀ p ∈ q, p.Within w.arena.size) →
    (w.arena.under q).map (positionAt placed) ++ (w.todo.filter (·.2 = q)).map (some ·.1) =
      (plan.listAt (q.bind (positionAt placed))).map some
  distinct : (placed ++ w.todo.map Prod.fst).Nodup
  leads : ∀ c ∈ placed ++ w.todo.map Prod.fst, plan.Leads c
  -- so the replies to a position are on the way only once it has been inserted itself
  parents : ∀ c ∈ placed ++ w.todo.map Prod.fst, ∀ p, c ∈ plan.listAt (some p) → p ∈ placed

theorem positionAt_append {placed : List Nat} {i : Index} (h : i.Within placed.length) (pos : Nat) :
    positionAt (placed ++ [pos]) i = positionAt placed i :=
  List.getElem?_append_left h.2

theorem positionAt_nextIndex {placed : List Nat} {a : Arena α} (h : a.size = placed.length)
    (pos : Nat) : positionAt (placed ++ [pos]) a.nextIndex = some pos := by
  have hslot : a.nextIndex.slot = placed.length := h
  rw [positionAt, hslot, List.getElem?_concat_length]

/-! ## The loop -/

theorem map_todo_start (plan : Plan) (xs : List α) :
    (start plan xs).todo.map Prod.fst = plan.listAt none := by
  rw [start, List.map_map]
  exact List.map_id' _

theorem Tracks.start {plan : Plan} {xs : List α} (sound : plan.Sound xs.length) :
    Tracks plan xs [] (start plan xs) where
  coherent := Arena.coherent_empty
  size := rfl
  items i hi := absurd hi.2 (Nat.not_lt_zero _)
  slots pos := by simp [Weaving.start]
  live e he p hp := by
    obtain ⟨c, _, rfl⟩ := List.mem_map.1 he
    cases hp
  lists q hq := by
    cases q with
    | none =>
      simp [Weaving.start, Arena.under, Arena.empty, Plan.listAt, List.filter_map,
        Function.comp_def]
    | some p => exact absurd (hq p rfl).2 (Nat.not_lt_zero _)
  distinct := by
    rw [map_todo_start]
    exact sound.distinct none
  leads c hc := .start (map_todo_start plan xs ▸ hc)
  parents c hc p hp := by
    have hstart : c ∈ plan.listAt none := map_todo_start plan xs ▸ hc
    cases sound.place_unique hstart hp

section Step

variable {plan : Plan} {xs : List α} {placed : List Nat} {w : Weaving α} {pos : Nat}
  {parent : Option Index} {todo : List (Nat × Option Index)}

theorem step_eq {x : α} (hw : w.todo = (pos, parent) :: todo) (hx : w.slots[pos]? = some (some x)) :
    w.step plan = ⟨(plan.listAt (some pos)).map (·, some w.arena.nextIndex) ++ todo,
      w.slots.setIfInBounds pos none, w.arena.insert x parent⟩ := by
  obtain ⟨_, slots, arena⟩ := w
  obtain rfl := hw
  simp only [Weaving.step, hx]
  rfl

/-- The item of the next position has not been inserted. -/
theorem Tracks.exists_item (h : Tracks plan xs placed w) (sound : plan.Sound xs.length)
    (hw : w.todo = (pos, parent) :: todo) :
    ∃ x, xs[pos]? = some x ∧ w.slots[pos]? = some (some x) := by
  have hpos : pos ∈ w.todo.map Prod.fst := by rw [hw]; exact List.mem_cons_self
  have hplaced : pos ∉ placed := fun hmem =>
    (List.nodup_append.1 h.distinct).2.2 pos hmem pos hpos rfl
  obtain ⟨q, hq⟩ := (h.leads pos (List.mem_append_right _ hpos)).exists_place
  obtain ⟨x, hx⟩ : ∃ x, xs[pos]? = some x := ⟨_, List.getElem?_eq_getElem (sound.bound hq)⟩
  refine ⟨x, hx, ?_⟩
  rw [h.slots, if_neg hplaced, hx, Option.map_some]

theorem Tracks.lists_step (h : Tracks plan xs placed w) (hw : w.todo = (pos, parent) :: todo) (x : α)
    {q : Option Index} (hq : ∀ p ∈ q, p.Within (w.arena.size + 1)) :
    ((w.arena.insert x parent).under q).map (positionAt (placed ++ [pos])) ++
        (((plan.listAt (some pos)).map (·, some w.arena.nextIndex) ++ todo).filter (·.2 = q)).map
          (some ·.1) =
      (plan.listAt (q.bind (positionAt (placed ++ [pos])))).map some := by
  have hlive := h.live
  rw [hw, List.forall_mem_cons] at hlive
  by_cases hnew : q = some w.arena.nextIndex
  · -- nothing is listed under the new index yet, and all that its position lists comes next
    have hparent : parent ≠ q := fun heq =>
      (hlive.1 _ (heq.trans hnew)).ne_nextIndex rfl
    have htodo : todo.filter (·.2 = q) = [] := List.filter_eq_nil_iff.2 fun e he heq =>
      (hlive.2 e he _ ((decide_eq_true_iff.1 heq).trans hnew)).ne_nextIndex rfl
    rw [Arena.under_insert, if_neg (fun hp => hparent hp.1), List.filter_append, htodo]
    subst hnew
    rw [Arena.under_eq_nil w.arena.get?_nextIndex, Option.bind_some, positionAt_nextIndex h.size]
    simp [List.filter_map, Function.comp_def]
  · have hwithin : ∀ p ∈ q, p.Within w.arena.size := fun p hp =>
      Arena.within_of_ne_nextIndex (hq p hp) fun heq => hnew (heq ▸ hp)
    have hbind : q.bind (positionAt (placed ++ [pos])) = q.bind (positionAt placed) := by
      cases q with
      | none => rfl
      | some p => exact positionAt_append (h.size ▸ hwithin p rfl) pos
    have hunder : (w.arena.under q).map (positionAt (placed ++ [pos])) =
        (w.arena.under q).map (positionAt placed) :=
      List.map_congr_left fun i hi => positionAt_append (h.size ▸ h.coherent.within hi) pos
    have hreplies : ((plan.listAt (some pos)).map (·, some w.arena.nextIndex)).filter (·.2 = q) =
        [] := by
      simp [List.filter_map, Function.comp_def, Ne.symm hnew]
    rw [hbind, ← h.lists q hwithin, hw, Arena.under_insert, List.filter_append, hreplies,
      List.nil_append]
    by_cases hparent : parent = q
    · have hnext : ((pos, parent) :: todo).filter (·.2 = q) =
          (pos, parent) :: todo.filter (·.2 = q) :=
        List.filter_cons_of_pos (decide_eq_true hparent)
      rw [if_pos ⟨hparent, hq⟩, hnext, List.map_append, hunder, List.map_singleton,
        positionAt_nextIndex h.size, List.append_assoc]
      rfl
    · have hnext : ((pos, parent) :: todo).filter (·.2 = q) = todo.filter (·.2 = q) :=
        List.filter_cons_of_neg (by simpa using hparent)
      rw [if_neg (fun hp => hparent hp.1), hnext, hunder]

theorem Tracks.slots_step (h : Tracks plan xs placed w) (c : Nat) {x : α}
    (hslot : w.slots[pos]? = some (some x)) :
    (w.slots.setIfInBounds pos none)[c]? =
      if c ∈ placed ++ [pos] then some none else xs[c]?.map some := by
  have hlt : pos < w.slots.size := (Array.getElem?_eq_some_iff.1 hslot).1
  rw [Array.getElem?_setIfInBounds, h.slots]
  by_cases hc : pos = c
  · subst hc
    simp [hlt]
  · simp [hc, Ne.symm hc]

/-- A position is listed in one place, so it is put on the way only with the step that inserts the item
it replies to. -/
theorem Tracks.distinct_step (h : Tracks plan xs placed w) (sound : plan.Sound xs.length)
    (hw : w.todo = (pos, parent) :: todo) :
    (placed ++ [pos] ++ (plan.listAt (some pos) ++ todo.map Prod.fst)).Nodup := by
  have hdistinct := h.distinct
  have hparents := h.parents
  rw [hw, List.map_cons, List.append_cons] at hdistinct hparents
  have hpos : pos ∉ placed := fun hmem =>
    (List.nodup_append.1 h.distinct).2.2 pos hmem pos (by simp [hw]) rfl
  -- a reply to `pos` that is on the way already would say that `pos` has been inserted
  refine (List.perm_append_comm_assoc _ _ _).nodup_iff.1 ?_
  refine (sound.distinct _).append hdistinct fun c hc hmem => ?_
  exact hpos (hparents c hmem pos hc)

/-- One step inserts the next item. -/
theorem Tracks.step (h : Tracks plan xs placed w) (sound : plan.Sound xs.length)
    (hw : w.todo = (pos, parent) :: todo) :
    Tracks plan xs (placed ++ [pos]) (w.step plan) := by
  obtain ⟨x, hx, hslot⟩ := h.exists_item sound hw
  have hlive := h.live
  have hleads := h.leads
  have hparents := h.parents
  rw [hw, List.forall_mem_cons] at hlive
  rw [hw, List.map_cons, List.append_cons] at hleads hparents
  have htodo : (((plan.listAt (some pos)).map (·, some w.arena.nextIndex) ++ todo).map Prod.fst) =
      plan.listAt (some pos) ++ todo.map Prod.fst := by
    rw [List.map_append, List.map_map]
    exact congrArg (· ++ _) (List.map_id' _)
  have hsplit : ∀ c, c ∈ placed ++ [pos] ++ (plan.listAt (some pos) ++ todo.map Prod.fst) →
      c ∈ plan.listAt (some pos) ∨ c ∈ placed ++ [pos] ++ todo.map Prod.fst := fun c hc =>
    List.mem_append.1 ((List.perm_append_comm_assoc _ _ _).mem_iff.1 hc)
  rw [step_eq hw hslot]
  exact {
    coherent := h.coherent.insert x parent
    size := by simp [h.size]
    items := fun i hi => by
      rw [Arena.label?_insert]
      by_cases hnew : i = w.arena.nextIndex
      · rw [if_pos hnew, hnew, positionAt_nextIndex h.size, Option.bind_some, hx]
        rfl
      · have hi := Arena.within_of_ne_nextIndex (by simpa using hi) hnew
        rw [if_neg hnew, h.items i hi, positionAt_append (h.size ▸ hi)]
    slots := fun c => h.slots_step c hslot
    live := fun e he p hp => by
      rw [Arena.size_insert]
      rcases List.mem_append.1 he with he | he
      · obtain ⟨c, _, rfl⟩ := List.mem_map.1 he
        cases hp
        exact w.arena.nextIndex_within
      · exact (hlive.2 e he p hp).succ
    lists := fun q hq => h.lists_step hw x (by simpa using hq)
    distinct := by
      rw [htodo]
      exact h.distinct_step sound hw
    leads := fun c hc => by
      rw [htodo] at hc
      rcases hsplit c hc with hc | hc
      · exact .reply (hleads pos (by simp)) hc
      · exact hleads c hc
    parents := fun c hc p hp => by
      rw [htodo] at hc
      rcases hsplit c hc with hc | hc
      · cases sound.place_unique hc hp
        exact List.mem_append_right _ (List.mem_singleton_self pos)
      · exact List.mem_append_left _ (hparents c hc p hp) }

end Step

/-! ## Turns -/

/-- The loop comes from `first` to `w`. A turn takes the next position, and may put others in front of what
is to come: these are the positions that were taken and those that were put there, turn by turn. -/
inductive Turns (plan : Plan) (first : Weaving α) : List Nat → List Nat → Weaving α → Prop
  | refl : Turns plan first [] [] first
  | turn {taken put : List Nat} {w : Weaving α} {pos : Nat} {parent : Option Index}
      {todo more : List (Nat × Option Index)} :
      Turns plan first taken put w → w.todo = (pos, parent) :: todo →
      (w.step plan).todo = more ++ todo →
      Turns plan first (taken ++ [pos]) (put ++ more.map Prod.fst) (w.step plan)

section Turns

variable {plan : Plan} {xs : List α} {taken put placed : List Nat} {first w : Weaving α}

theorem exists_put (plan : Plan) {w : Weaving α} {pos : Nat} {parent : Option Index}
    {todo : List (Nat × Option Index)} (hw : w.todo = (pos, parent) :: todo) :
    ∃ more, (w.step plan).todo = more ++ todo := by
  obtain ⟨_, slots, arena⟩ := w
  obtain rfl := hw
  rw [Weaving.step]
  split
  · exact ⟨_, rfl⟩
  · exact ⟨[], rfl⟩

/-- The loop goes on until nothing is to come. -/
theorem Turns.run (h : Turns plan first taken put w) :
    ∃ taken' put', Turns plan first taken' put' (w.run plan) ∧ (w.run plan).todo = [] := by
  induction w using run.induct plan generalizing taken put with
  | case1 w hdone =>
    rw [Weaving.run, dif_pos hdone]
    exact ⟨taken, put, h, List.isEmpty_iff.1 hdone⟩
  | case2 w hmore ih =>
    rw [Weaving.run, dif_neg hmore]
    obtain ⟨⟨pos, parent⟩, todo, hw⟩ := List.exists_cons_of_ne_nil (mt List.isEmpty_iff.2 hmore)
    obtain ⟨more, hstep⟩ := exists_put plan hw
    exact ih (h.turn hw hstep)

theorem Turns.tracks (h : Turns plan first taken put w) (sound : plan.Sound xs.length)
    (hfirst : Tracks plan xs placed first) : Tracks plan xs (placed ++ taken) w := by
  induction h with
  | refl => rwa [List.append_nil]
  | turn _ hw _ ih =>
    rw [← List.append_assoc]
    exact ih.step sound hw

/-- The loop ends with everything done that there was to do. -/
theorem Tracks.run (h : Tracks plan xs placed w) (sound : plan.Sound xs.length) :
    ∃ placed', Tracks plan xs placed' (w.run plan) ∧ (w.run plan).todo = [] := by
  obtain ⟨taken, put, hturns, hdone⟩ := Turns.run (.refl : Turns plan w [] [] w)
  exact ⟨placed ++ taken, hturns.tracks sound h, hdone⟩

end Turns

/-! ## The end of the loop -/

section End

variable {plan : Plan} {xs : List α} {placed : List Nat} {w : Weaving α}

/-- Nothing is to come, so the arena lists what the plan lists. -/
theorem Tracks.map_positionAt (h : Tracks plan xs placed w) (hdone : w.todo = []) {q : Option Index}
    (hq : ∀ p ∈ q, p.Within w.arena.size) :
    (w.arena.under q).map (positionAt placed) =
      (plan.listAt (q.bind (positionAt placed))).map some := by
  simpa [hdone] using h.lists q hq

theorem Tracks.mem_placed_of_listAt (h : Tracks plan xs placed w) (hdone : w.todo = [])
    {q : Option Index} (hq : ∀ p ∈ q, p.Within w.arena.size) {c : Nat}
    (hc : c ∈ plan.listAt (q.bind (positionAt placed))) : c ∈ placed := by
  have hmem : some c ∈ (w.arena.under q).map (positionAt placed) :=
    h.map_positionAt hdone hq ▸ List.mem_map_of_mem hc
  obtain ⟨i, _, hi⟩ := List.mem_map.1 hmem
  exact List.mem_of_getElem? hi

/-- What has been inserted is what the plan leads to. -/
theorem Tracks.mem_placed_iff (h : Tracks plan xs placed w) (hdone : w.todo = []) {c : Nat} :
    c ∈ placed ↔ plan.Leads c := by
  refine ⟨fun hc => h.leads c (List.mem_append_left _ hc), fun hc => ?_⟩
  induction hc with
  | start hc => exact h.mem_placed_of_listAt hdone (q := none) (fun p hp => by cases hp) hc
  | @reply p c _ hc ih =>
    obtain ⟨k, hk⟩ := List.getElem?_of_mem ih
    have hwithin : (Index.mk k 0).Within w.arena.size :=
      ⟨rfl, h.size ▸ (List.getElem?_eq_some_iff.1 hk).1⟩
    have hposition : (some (Index.mk k 0)).bind (positionAt placed) = some p := hk
    refine h.mem_placed_of_listAt hdone (q := some ⟨k, 0⟩) (fun p hp => ?_) (hposition ▸ hc)
    cases hp
    exact hwithin

/-- The items that the arena lists under an index are those that the plan lists under its position. -/
theorem Tracks.map_under (h : Tracks plan xs placed w) (hdone : w.todo = []) {q : Option Index}
    (hq : ∀ p ∈ q, p.Within w.arena.size) :
    (w.arena.under q).map (fun i => (w.arena.label? i).map Prod.fst) =
      (plan.listAt (q.bind (positionAt placed))).map (xs[·]?) :=
  calc (w.arena.under q).map (fun i => (w.arena.label? i).map Prod.fst)
    _ = (w.arena.under q).map fun i => (positionAt placed i).bind (xs[·]?) :=
      List.map_congr_left fun i hi => h.items i (h.coherent.within hi)
    _ = ((w.arena.under q).map (positionAt placed)).map fun c => c.bind (xs[·]?) := by
      rw [List.map_map]
      rfl
    _ = _ := by
      rw [h.map_positionAt hdone hq, List.map_map]
      rfl

/-- What is left over first is the first item that the plan does not lead to. -/
theorem Tracks.stranded?_eq (h : Tracks plan xs placed w) (sound : plan.Sound xs.length)
    (hdone : w.todo = []) {P : α → Prop} [DecidablePred P]
    (hP : ∀ c x, xs[c]? = some x → (plan.Leads c ↔ P x)) :
    w.stranded? = xs.find? fun x => ¬ P x := by
  have hslots : w.slots = (xs.map fun x => if P x then none else some x).toArray := by
    refine Array.ext_getElem? fun c => ?_
    rw [h.slots, List.getElem?_toArray, List.getElem?_map]
    cases hx : xs[c]? with
    | none =>
      have hplaced : c ∉ placed := fun hmem => by
        obtain ⟨q, hq⟩ := ((h.mem_placed_iff hdone).1 hmem).exists_place
        exact absurd (sound.bound hq) (Nat.not_lt.2 (List.getElem?_eq_none_iff.1 hx))
      rw [if_neg hplaced]
      rfl
    | some x =>
      have hiff : c ∈ placed ↔ P x := (h.mem_placed_iff hdone).trans (hP c x hx)
      by_cases hp : P x <;> simp [hiff, hp]
  rw [stranded?, hslots, List.findSome?_toArray, List.findSome?_map, ← List.findSome?_guard]
  refine congrArg (List.findSome? · xs) (funext fun x => ?_)
  by_cases hp : P x <;> simp [Option.guard, hp]

end End

end Weaving

end Discussion
