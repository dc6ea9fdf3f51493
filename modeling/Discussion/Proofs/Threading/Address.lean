import Mathlib.Data.List.Lex
import Discussion.Proofs.Threading.Outcome
import Discussion.Proofs.Tree.Levels

/-!
# Threading as sorting

The address of an item is the list of the positions of the items on its chain of parents, from the one
that starts the discussion down to the item itself. A list is threaded into the forest whose listing
has its items in the lexicographic order of their addresses, an item before everything below it.

Results:
1. `Threaded.climb_of_starts`, `Threaded.climb_of_answers`: the chain of parents is climbed step by step.
2. `Forest.Arranges.address_reply`: the climb is long enough to reach the start of every discussion.
3. `Forest.Arranges.numbered`: the forest is numbered by the positions of its items.
-/

namespace Discussion

universe u v

variable {α : Type u} {ι : Type v} [Threaded α ι] [BEq ι]

namespace Threaded

/-- The position of an item in the list. -/
def position (xs : List α) (x : α) : Nat :=
  xs.findIdx fun y => id y == id x

/-- The item of the list that an item replies to. -/
def parentIn? (xs : List α) (x : α) : Option α :=
  (parent? x).bind fun i => xs.find? fun y => id y == i

/-- The positions on the chain of parents, of at most so many items, down to the item itself. -/
def climb (xs : List α) : Nat → α → List Nat
  | 0, _ => []
  | steps + 1, x => (parentIn? xs x).elim [] (climb xs steps) ++ [position xs x]

/-- The positions of the items on the chain of parents, from the start of the discussion down to the item
itself. A chain that ends is not longer than the list. -/
def address (xs : List α) (x : α) : List Nat :=
  climb xs xs.length x

variable [LawfulBEq ι] {xs : List α}

theorem position_eq (distinct : (xs.map id).Nodup) {pos : Nat} {x : α} (hx : xs[pos]? = some x) :
    position xs x = pos := by
  obtain ⟨hpos, rfl⟩ := List.getElem?_eq_some_iff.1 hx
  refine (List.findIdx_eq hpos).2 ⟨beq_self_eq_true _, fun j hj => ?_⟩
  rw [beq_eq_false_iff_ne]
  have hpairwise := List.pairwise_iff_getElem.1 (List.pairwise_map.1 distinct)
  exact hpairwise j pos (Nat.lt_trans hj hpos) hpos hj

theorem pairwise_position (distinct : (xs.map id).Nodup) :
    xs.Pairwise fun x y => position xs x < position xs y := by
  refine List.pairwise_iff_getElem.2 fun i j hi hj hlt => ?_
  rw [position_eq distinct (List.getElem?_eq_getElem hi),
    position_eq distinct (List.getElem?_eq_getElem hj)]
  exact hlt

theorem parentIn?_of_starts {x : α} (h : starts xs x) : parentIn? xs x = none := by
  refine Option.bind_eq_none_iff.2 fun i hi => List.find?_eq_none.2 fun y hy heq => ?_
  exact starts_iff.1 h y ⟨hy, (beq_iff_eq.1 heq).symm ▸ hi⟩

theorem parentIn?_of_answers (distinct : (xs.map id).Nodup) {x y : α} (h : Answers xs x y) :
    parentIn? xs x = some y := by
  have hsome : (xs.find? fun z => id z == id y).isSome :=
    List.find?_isSome.2 ⟨y, h.1, beq_self_eq_true _⟩
  obtain ⟨z, hz⟩ := Option.isSome_iff_exists.1 hsome
  have hid : id z = id y := beq_iff_eq.1 (List.find?_some (p := fun z => id z == id y) hz)
  rw [parentIn?, h.2, Option.bind_some, hz]
  exact congrArg some (List.inj_on_of_nodup_map distinct (List.mem_of_find?_eq_some hz) h.1 hid)

theorem climb_of_starts {x : α} (h : starts xs x) (steps : Nat) :
    climb xs (steps + 1) x = [position xs x] := by
  rw [climb, parentIn?_of_starts h, Option.elim_none, List.nil_append]

theorem climb_of_answers (distinct : (xs.map id).Nodup) {x y : α} (h : Answers xs x y)
    (steps : Nat) : climb xs (steps + 1) x = climb xs steps y ++ [position xs x] := by
  rw [climb, parentIn?_of_answers distinct h, Option.elim_some]

theorem address_of_starts {x : α} (hx : x ∈ xs) (h : starts xs x) :
    address xs x = [position xs x] := by
  obtain ⟨steps, hsteps⟩ := Nat.exists_eq_succ_of_ne_zero
    (Nat.ne_of_gt (List.length_pos_of_mem hx))
  rw [address, hsteps]
  exact climb_of_starts h steps

end Threaded

open Threaded

namespace Forest

variable [LawfulBEq ι] {xs : List α} {f : Forest α}

/-! ## How far to climb -/

/-- From a node at some level the start of the discussion is reached in as many steps, and further steps
add nothing. -/
theorem Arranges.climb_eq (h : f.Arranges xs) (distinct : (xs.map Threaded.id).Nodup) :
    ∀ v ∈ Tree.levelsAll 0 f.roots, (climb xs (v.1 + 1) v.2.item).length = v.1 + 1 ∧
      ∀ steps, v.1 < steps → climb xs steps v.2.item = climb xs (v.1 + 1) v.2.item := by
  refine Tree.levelsAll_induction (P := fun level t =>
    (climb xs (level + 1) t.item).length = level + 1 ∧
      ∀ steps, level < steps → climb xs steps t.item = climb xs (level + 1) t.item) ?_ ?_
  · intro t ht
    have hstart := (h.root_mem ht).2
    refine ⟨by rw [climb_of_starts hstart]; rfl, fun steps hsteps => ?_⟩
    obtain ⟨steps, rfl⟩ := Nat.exists_eq_succ_of_ne_zero (Nat.ne_of_gt hsteps)
    rw [climb_of_starts hstart, climb_of_starts hstart]
  · rintro level t ht ⟨hlength, hclimb⟩ r hr
    have hanswers : Answers xs r.item t.item := ⟨(h.item_mem t ht).1, (h.reply_mem ht hr).2⟩
    rw [climb_of_answers distinct hanswers]
    refine ⟨by rw [List.length_append, hlength, List.length_singleton], fun steps hsteps => ?_⟩
    obtain ⟨steps, rfl⟩ := Nat.exists_eq_succ_of_ne_zero (Nat.ne_of_gt (Nat.zero_lt_of_lt hsteps))
    rw [climb_of_answers distinct hanswers, hclimb steps (Nat.lt_of_succ_lt_succ hsteps)]

theorem Arranges.address_eq (h : f.Arranges xs) (distinct : (xs.map Threaded.id).Nodup)
    {v : Nat × Tree α} (hv : v ∈ Tree.levelsAll 0 f.roots) :
    address xs v.2.item = climb xs (v.1 + 1) v.2.item := by
  have hlevel := Tree.level_lt_countAll 0 f.roots v hv
  rw [Nat.zero_add] at hlevel
  exact (h.climb_eq distinct v hv).2 _ (Nat.lt_of_lt_of_le hlevel (h.count_le distinct))

theorem Arranges.length_address (h : f.Arranges xs) (distinct : (xs.map Threaded.id).Nodup)
    {v : Nat × Tree α} (hv : v ∈ Tree.levelsAll 0 f.roots) :
    (address xs v.2.item).length = v.1 + 1 := by
  rw [h.address_eq distinct hv]
  exact (h.climb_eq distinct v hv).1

theorem Arranges.address_reply (h : f.Arranges xs) (distinct : (xs.map Threaded.id).Nodup)
    {t r : Tree α} (ht : t ∈ f.nodes) (hr : r ∈ t.replies) :
    address xs r.item = address xs t.item ++ [position xs r.item] := by
  have hanswers : Answers xs r.item t.item := ⟨(h.item_mem t ht).1, (h.reply_mem ht hr).2⟩
  rw [nodes, ← Tree.map_snd_levelsAll 0] at ht
  obtain ⟨v, hv, rfl⟩ := List.mem_map.1 ht
  rw [h.address_eq distinct (Tree.reply_mem_levelsAll hv hr), climb_of_answers distinct hanswers,
    h.address_eq distinct hv]

/-! ## The order of the listing -/

theorem pairwise_siblings {ts : List (Tree α)} (distinct : (xs.map Threaded.id).Nodup)
    (h : (ts.map Tree.item).Sublist xs) :
    ts.Pairwise fun t u => position xs t.item < position xs u.item := by
  have hpairwise := (pairwise_position distinct).sublist h
  rwa [List.pairwise_map] at hpairwise

/-- The forest is numbered by the positions of its items. -/
theorem Arranges.numbered (h : f.Arranges xs) (distinct : (xs.map Threaded.id).Nodup) {t : Tree α}
    (ht : t ∈ f.roots) : t.Numbered (address xs) (position xs) := by
  have inside : ∀ u ∈ t.nodes, u ∈ f.nodes := fun u hu => Tree.mem_nodesAll.2 ⟨t, ht, hu⟩
  constructor
  · intro u hu r hr
    exact h.address_reply distinct (inside u hu) hr
  · intro u hu
    exact pairwise_siblings distinct (h.replies_sublist (inside u hu))

theorem Arranges.pairwise_address (h : f.Arranges xs) (distinct : (xs.map Threaded.id).Nodup) :
    f.flatten.Pairwise fun x y => address xs x < address xs y := by
  have roots : ∀ t ∈ f.roots, address xs t.item = [] ++ [position xs t.item] := by
    intro t ht
    exact address_of_starts (h.root_mem ht).1 (h.root_mem ht).2
  rw [flatten_eq, List.pairwise_map]
  exact Tree.Numbered.pairwise_nodesAll (fun t ht => h.numbered distinct ht) roots
    (pairwise_siblings distinct h.roots_sublist)

theorem Arranges.entries_eq (h : f.Arranges xs) (distinct : (xs.map Threaded.id).Nodup) :
    f.entries = f.flatten.map fun x => ((address xs x).length - 1, x) := by
  rw [Forest.entries_eq, flatten_eq, nodes, ← Tree.map_snd_levelsAll 0, List.map_map, List.map_map]
  refine List.map_congr_left fun v hv => ?_
  show (v.1, v.2.item) = ((address xs v.2.item).length - 1, v.2.item)
  rw [h.length_address distinct hv, Nat.add_sub_cancel]

variable [Hashable ι]

/-- The listing of the forest is the list sorted by addresses, each item at the depth that the length of
its address says. An address is the position of an item that starts a discussion, or the address of the
parent with the position of the item behind. -/
theorem entries_thread (xs : List α) (f : Forest α) (h : thread xs = .ok f) :
    (∀ pos x, xs[pos]? = some x →
      (starts xs x → address xs x = [pos]) ∧
        ∀ y, Answers xs x y → address xs x = address xs y ++ [pos]) ∧
    f.entries = (xs.insertionSort fun x y => address xs x ≤ address xs y).map
      fun x => ((address xs x).length - 1, x) := by
  obtain ⟨distinct, grounded, hf⟩ := thread_eq_ok_iff.1 h
  refine ⟨fun pos x hx => ?_, ?_⟩
  · have hmem := List.mem_of_getElem? hx
    rw [← position_eq distinct hx]
    refine ⟨address_of_starts hmem, fun y hy => ?_⟩
    obtain ⟨t, ht, rfl⟩ := hf.exists_node hy.1 (grounded y hy.1)
    obtain ⟨r, hr, rfl⟩ := List.mem_map.1 (hf.replies t ht ▸ mem_repliesTo.2 ⟨hmem, hy.2⟩)
    exact hf.address_reply distinct ht hr
  · rw [hf.entries_eq distinct,
      eq_insertionSort_of_pairwise (flatten_perm h) (hf.pairwise_address distinct)]

/-- Two discussions whose items are listed in turn, and a reply listed before its parent. -/
theorem entries_thread_of_posts :
    ∃ f, thread [(⟨3, some 1, "", none⟩ : Post), ⟨2, none, "", none⟩, ⟨1, some 9, "", none⟩,
        ⟨4, some 2, "", none⟩, ⟨5, some 3, "", none⟩] = .ok f ∧
      f.entries = [(0, ⟨2, none, "", none⟩), (1, ⟨4, some 2, "", none⟩), (0, ⟨1, some 9, "", none⟩),
        (1, ⟨3, some 1, "", none⟩), (2, ⟨5, some 3, "", none⟩)] := by
  let xs : List Post := [⟨3, some 1, "", none⟩, ⟨2, none, "", none⟩, ⟨1, some 9, "", none⟩,
    ⟨4, some 2, "", none⟩, ⟨5, some 3, "", none⟩]
  have second : Grounded xs ⟨2, none, "", none⟩ := .start (by decide)
  have first : Grounded xs ⟨1, some 9, "", none⟩ := .start (by decide)
  have third : Grounded xs ⟨3, some 1, "", none⟩ := .reply ⟨by decide, rfl⟩ first
  have grounded : ∀ x ∈ xs, Grounded xs x :=
    List.forall_mem_cons.2 ⟨third, List.forall_mem_cons.2 ⟨second, List.forall_mem_cons.2 ⟨first,
      List.forall_mem_cons.2 ⟨.reply ⟨by decide, rfl⟩ second,
        List.forall_mem_singleton.2 (.reply ⟨by decide, rfl⟩ third)⟩⟩⟩⟩
  obtain ⟨f, hf⟩ := exists_thread_eq_ok_iff.2 ⟨by decide, grounded⟩
  refine ⟨f, hf, (entries_thread xs f hf).2.trans ?_⟩
  decide

end Forest

end Discussion
