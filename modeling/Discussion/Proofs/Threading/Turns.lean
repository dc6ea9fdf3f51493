import Discussion.Proofs.Threading.Outcome

/-!
# Turn by turn

The loop that moves the items into the arena would pass over a position whose item has been inserted, leave
an item outside every tree if its parent is not live, and take a position beyond the plan for one without
replies. If the identities are distinct, none of this ever happens, whether or not there are cycles of
parents.

* `Weaving.Heads xs f taken w`: what has been taken, and behind it everything at the positions to come and
  below them, is the pre-order of `f`.

Results:
1. `Turns.put_perm`: what was put on the list of what is to come has been taken, or is still there.
2. `Turns.nodup_put`, `Tracks.parent_live`: nothing is put there twice, and what a turn finds.
3. `Heads.step`, `Turns.map_taken`: the turns go in pre-order.
4. `Tracks.map_item`: the arena holds the items in the order in which they were taken.
5. `run_takes_each_once`: all of this, for the run over a list of distinct identities.
-/

namespace Discussion

universe u v

open Arena (Index)
open Threaded

variable {α : Type u} {ι : Type v}

namespace Weaving

section Positions

variable {plan : Plan} {xs : List α} {taken put placed : List Nat} {first w : Weaving α} {pos : Nat}
  {parent : Option Index} {todo : List (Nat × Option Index)}

/-- Nothing gets on the list of what is to come, or off it, but by the turns. -/
theorem Turns.put_perm (h : Turns plan first taken put w) :
    (first.todo.map Prod.fst ++ put).Perm (taken ++ w.todo.map Prod.fst) := by
  induction h with
  | refl => rw [List.append_nil, List.nil_append]
  | @turn taken put w pos parent todo more _ hw hstep ih =>
    rw [hw, List.map_cons, List.append_cons] at ih
    rw [hstep, List.map_append, ← List.append_assoc]
    refine (ih.append_right _).trans ?_
    rw [List.append_assoc]
    exact List.perm_append_comm.append_left _

/-- Nothing is put on the list twice, because nothing is taken twice. -/
theorem Turns.nodup_put (h : Turns plan (start plan xs) taken put w) (sound : plan.Sound xs.length) :
    ((start plan xs).todo.map Prod.fst ++ put).Nodup :=
  h.put_perm.nodup_iff.2 (h.tracks sound (Tracks.start sound)).distinct

theorem Tracks.pos_lt (h : Tracks plan xs placed w) (sound : plan.Sound xs.length)
    (hw : w.todo = (pos, parent) :: todo) : pos < xs.length := by
  obtain ⟨x, hx, _⟩ := h.exists_item sound hw
  exact (List.getElem?_eq_some_iff.1 hx).1

theorem Tracks.parent_live (h : Tracks plan xs placed w) (hw : w.todo = (pos, parent) :: todo) :
    ∀ p ∈ parent, (w.arena.get? p).isSome := by
  intro p hp
  have hnext : (pos, parent) ∈ w.todo := hw ▸ List.mem_cons_self
  exact Arena.isSome_get?_iff.2 (h.live _ hnext p hp)

/-- The arena holds the items in the order in which they were inserted. -/
theorem Tracks.map_item (h : Tracks plan xs placed w) :
    (w.arena.nodes.toList.map (·.item)).map some = placed.map (xs[·]?) := by
  have hsize : w.arena.nodes.toList.length = placed.length := h.size
  refine List.ext_getElem (by simpa using hsize) fun k hk _ => ?_
  rw [List.length_map, List.length_map] at hk
  have hnode : w.arena.get? ⟨k, 0⟩ = some w.arena.nodes.toList[k] := by
    rw [Arena.get?, if_pos rfl, ← Array.getElem?_toList, List.getElem?_eq_getElem hk]
  have hitem := h.items ⟨k, 0⟩ ⟨rfl, hk⟩
  rw [Arena.label?, hnode, positionAt, List.getElem?_eq_getElem (hsize ▸ hk)] at hitem
  rw [List.getElem_map, List.getElem_map, List.getElem_map]
  exact hitem

theorem map_todo_listAt (plan : Plan) (xs : List α) (q : Option Nat) (parent : Option Index) :
    ((plan.listAt q).map (·, parent)).map (fun e => xs[e.1]?) =
      (plan.listAt q).map (xs[·]?) := by
  rw [List.map_map]
  rfl

end Positions

/-! ## Pre-order -/

section PreOrder

variable [BEq ι] [LawfulBEq ι] [Hashable ι] [Threaded α ι] {places : Std.HashMap ι Nat} {xs : List α}
  {f : Forest α} {taken put : List Nat} {w : Weaving α} {pos : Nat} {parent : Option Index}
  {todo : List (Nat × Option Index)}

/-- The trees at the positions to come follow, in pre-order, what has been taken. -/
def Heads (xs : List α) (f : Forest α) (taken : List Nat) (w : Weaving α) : Prop :=
  ∃ ts : List (Tree α), (∀ t ∈ ts, t.Follows fun x => repliesTo xs (Threaded.id x)) ∧
    (ts.map Tree.item).map some = w.todo.map (fun e => xs[e.1]?) ∧
    taken.map (xs[·]?) ++ ((Tree.nodesAll ts).map Tree.item).map some =
      (f.nodes.map Tree.item).map some

theorem heads_start (located : Locates places xs) (hf : f.Arranges xs) :
    Heads xs f [] (start (Plan.ofItems places xs) xs) := by
  refine ⟨f.roots, fun t ht => hf.follows (Tree.mem_nodesAll_of_mem ht), ?_, rfl⟩
  have htodo : (start (Plan.ofItems places xs) xs).todo =
      ((Plan.ofItems places xs).listAt none).map (·, none) := rfl
  rw [htodo, map_todo_listAt, Plan.map_listAt located, Plan.filter_placeOf_none located, hf.roots]

/-- The tree at the next position gives its root to what has been taken, and its replies to what is to
come. -/
theorem Heads.step (h : Heads xs f taken w) (located : Locates places xs)
    (hw : w.todo = (pos, parent) :: todo) {x : α} (hx : xs[pos]? = some x)
    (hslot : w.slots[pos]? = some (some x)) :
    Heads xs f (taken ++ [pos]) (w.step (Plan.ofItems places xs)) := by
  obtain ⟨_ | ⟨⟨y, rs⟩, ts⟩, hfollows, hitems, hnodes⟩ := h
  · rw [hw] at hitems
    cases hitems
  rw [hw, List.map_cons, List.map_cons, List.map_cons] at hitems
  obtain ⟨hitem, hitems⟩ := List.cons.inj hitems
  obtain rfl : y = x := Option.some.inj (hitem.trans hx)
  obtain ⟨htree, hfollows⟩ := List.forall_mem_cons.1 hfollows
  -- The replies are put in front of what is to come, as pre-order wants them.
  refine ⟨rs ++ ts, ?_, ?_, ?_⟩
  · intro t ht
    rcases List.mem_append.1 ht with ht | ht
    · exact htree.reply ht
    · exact hfollows t ht
  · rw [step_eq hw hslot, List.map_append, List.map_append, List.map_append, hitems,
      map_todo_listAt, Plan.map_listAt located, Plan.filter_placeOf_some located hx,
      htree.map_item]
  · rw [← hnodes, List.map_append, Tree.nodesAll_append, Tree.nodesAll_cons, Tree.nodes_node,
      List.append_assoc, List.map_singleton, hx]
    rfl

theorem Turns.heads (h : Turns (Plan.ofItems places xs) (start (Plan.ofItems places xs) xs) taken put w)
    (located : Locates places xs) (hf : f.Arranges xs) : Heads xs f taken w := by
  induction h with
  | refl => exact heads_start located hf
  | turn hturns hw _ ih =>
    have sound := Plan.sound_ofItems located
    obtain ⟨x, hx, hslot⟩ := (hturns.tracks sound (Tracks.start sound)).exists_item sound hw
    exact ih.step located hw hx hslot

/-- When nothing is to come, the items have been taken in pre-order. -/
theorem Turns.map_taken
    (h : Turns (Plan.ofItems places xs) (start (Plan.ofItems places xs) xs) taken put w)
    (located : Locates places xs) (hf : f.Arranges xs) (hdone : w.todo = []) :
    taken.map (xs[·]?) = f.flatten.map some := by
  obtain ⟨ts, _, hitems, hnodes⟩ := h.heads located hf
  rw [hdone, List.map_nil, List.map_eq_nil_iff, List.map_eq_nil_iff] at hitems
  rw [hitems, Tree.nodesAll_nil, List.map_nil, List.map_nil, List.append_nil] at hnodes
  rw [hnodes, Forest.flatten_eq]

end PreOrder

/-! ## The run -/

variable [BEq ι] [LawfulBEq ι] [Hashable ι] [Threaded α ι]

/-- What has been inserted in the end are the items whose chain of parents ends. -/
theorem Tracks.mem_placed_iff_grounded {places : Std.HashMap ι Nat} {xs : List α} {placed : List Nat}
    {w : Weaving α} (h : Tracks (Plan.ofItems places xs) xs placed w) (hdone : w.todo = [])
    (located : Locates places xs) {pos : Nat} :
    pos ∈ placed ↔ ∃ x, xs[pos]? = some x ∧ Grounded xs x := by
  rw [h.mem_placed_iff hdone]
  constructor
  · intro hleads
    obtain ⟨q, hq⟩ := hleads.exists_place
    obtain ⟨x, hx, _⟩ := (Plan.mem_listAt located).1 hq
    exact ⟨x, hx, (Plan.leads_iff_grounded located hx).1 hleads⟩
  · rintro ⟨x, hx, hground⟩
    exact (Plan.leads_iff_grounded located hx).2 hground

/-- However the parents of distinct items are chosen, no position is put twice on the list of what is to
come, and each turn finds the item of its position not yet inserted, the position within the plan, and the
parent that it names live. The run has one turn for each item whose chain of parents ends, and none for the
others. It inserts the items in the pre-order of the forest that the arena then holds, and that forest is
what threading returns if it succeeds. -/
theorem run_takes_each_once (xs : List α) (distinct : (xs.map Threaded.id).Nodup) :
    ∃ places : Std.HashMap ι Nat, positions ∅ 0 xs = .ok places ∧
      let plan := Plan.ofItems places xs
      let last := (start plan xs).run plan
      (∀ taken put w, Turns plan (start plan xs) taken put w →
        ((start plan xs).todo.map Prod.fst ++ put).Nodup ∧
        ∀ pos parent todo, w.todo = (pos, parent) :: todo →
          (∃ x, xs[pos]? = some x ∧ w.slots[pos]? = some (some x)) ∧ pos < plan.replies.size ∧
          ∀ p ∈ parent, (w.arena.get? p).isSome) ∧
      ∃ taken put, Turns plan (start plan xs) taken put last ∧ last.todo = [] ∧ taken.Nodup ∧
        (∀ pos, pos ∈ taken ↔ ∃ x, xs[pos]? = some x ∧ Grounded xs x) ∧
        (last.arena.nodes.toList.map (·.item)).map some = taken.map (xs[·]?) ∧
        last.arena.toForest.flatten = last.arena.nodes.toList.map (·.item) ∧
        ∀ f, Forest.thread xs = .ok f → f = last.arena.toForest := by
  obtain ⟨places, hplaces, located⟩ :
      ∃ places, positions ∅ 0 xs = .ok places ∧ Locates places xs :=
    positions_eq_ok locates_empty distinct
  have sound := Plan.sound_ofItems located
  have hstart := Tracks.start sound
  obtain ⟨taken, put, hturns, hdone⟩ :=
    Turns.run (.refl : Turns (Plan.ofItems places xs) (start (Plan.ofItems places xs) xs) [] [] _)
  have htracks := hturns.tracks sound hstart
  have hforest := htracks.arranges hdone located
  have htaken := hturns.map_taken located hforest hdone
  refine ⟨places, hplaces, fun taken put w h => ⟨h.nodup_put sound, fun pos parent todo hw => ?_⟩,
    taken, put, hturns, hdone, (List.nodup_append.1 htracks.distinct).1,
    fun pos => htracks.mem_placed_iff_grounded hdone located, htracks.map_item, ?_, fun f hf => ?_⟩
  · have hw' := h.tracks sound hstart
    refine ⟨hw'.exists_item sound hw, ?_, hw'.parent_live hw⟩
    rw [Plan.size_ofItems]
    exact hw'.pos_lt sound hw
  · exact List.map_injective_iff.2 (Option.some_injective α) (htaken.symm.trans htracks.map_item.symm)
  · rw [Forest.thread_of_positions hplaces] at hf
    split at hf
    · cases hf
    · exact (Except.ok.inj hf).symm

/-- Two turns insert an item and the reply listed before it. Two items that reply to each other get none. -/
theorem run_takes_each_once_of_posts :
    let xs : List Post :=
      [⟨2, some 1, "", none⟩, ⟨1, none, "", none⟩, ⟨4, some 5, "", none⟩, ⟨5, some 4, "", none⟩]
    (xs.map Threaded.id).Nodup ∧ ∃ places taken put, positions ∅ 0 xs = .ok places ∧
      Turns (Plan.ofItems places xs) (start (Plan.ofItems places xs) xs) taken put
        ((start (Plan.ofItems places xs) xs).run (Plan.ofItems places xs)) ∧ taken.Perm [1, 0] := by
  intro xs
  have distinct : (xs.map Threaded.id).Nodup := by decide
  obtain ⟨places, hplaces, _, taken, put, hturns, _, hnodup, hmem, _⟩ := run_takes_each_once xs distinct
  refine ⟨distinct, places, taken, put, hplaces, hturns, ?_⟩
  refine (List.perm_ext_iff_of_nodup hnodup (by decide)).2 fun pos => (hmem pos).trans ?_
  have first : Grounded xs ⟨1, none, "", none⟩ := .start (by decide)
  have second : Grounded xs ⟨2, some 1, "", none⟩ := .reply ⟨by decide, rfl⟩ first
  have third : ¬ Grounded xs ⟨4, some 5, "", none⟩ := by
    refine (not_grounded_iff_cycle distinct (by decide)).2 ⟨_, .refl, ?_⟩
    exact .tail (.single ⟨by decide, rfl⟩) (b := ⟨5, some 4, "", none⟩) ⟨by decide, rfl⟩
  have fourth : ¬ Grounded xs ⟨5, some 4, "", none⟩ := by
    refine (not_grounded_iff_cycle distinct (by decide)).2 ⟨_, .refl, ?_⟩
    exact .tail (.single ⟨by decide, rfl⟩) (b := ⟨4, some 5, "", none⟩) ⟨by decide, rfl⟩
  match pos with
  | 0 => simpa [xs] using second
  | 1 => simpa [xs] using first
  | 2 => simpa [xs] using third
  | 3 => simpa [xs] using fourth
  | pos + 4 => simp [xs]

end Weaving

end Discussion
