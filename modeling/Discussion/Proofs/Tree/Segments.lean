import Discussion.Proofs.Tree.Measures

/-!
# Reading measures off the depths

In a pre-order listing everything below an entry follows it at once, and ends where an entry is no deeper.
So the depths of a listing alone say how large the tree of each entry is, how far it reaches down, and
whether anyone replied to it.

* `blockEnd ds i d`: where the entries below position `i`, which has depth `d`, come to an end.
* `levelsReached ds`: the number of levels that entries with these depths reach.

Results:
1. `Tree.exists_levelsAll_drop`: what is below a node follows it at once, and nothing deeper after it.
2. `Tree.blockEnd_eq`, `Tree.isLeaf_eq_all_le`: the extent of a node, and whether it is a leaf, by depths.
3. `Forest.measured_by_depths`: the measures of a forest and of its nodes, by depths and by recursion.
-/

namespace Discussion

universe u v

variable {α : Type u} {β : Type v}

/-- The first position behind `i` that is no deeper than `d`; the number of depths if there is none. -/
def blockEnd (ds : List Nat) (i d : Nat) : Nat :=
  i + 1 + (ds.drop (i + 1)).findIdx (· ≤ d)

/-- One more than the greatest depth; 0 if there is none. -/
def levelsReached (ds : List Nat) : Nat :=
  ds.max?.elim 0 (· + 1)

/-! ## Lists -/

theorem foldl_max_succ (m : Nat) (vs : List (Nat × β)) :
    vs.foldl (fun deepest v => max deepest (v.1 + 1)) (m + 1) = (vs.map Prod.fst).foldl max m + 1 := by
  induction vs generalizing m with
  | nil => rfl
  | cons v vs ih => rw [List.foldl_cons, List.map_cons, List.foldl_cons, Nat.add_max_add_right, ih]

theorem foldl_max_eq_levelsReached (vs : List (Nat × β)) :
    vs.foldl (fun deepest v => max deepest (v.1 + 1)) 0 = levelsReached (vs.map Prod.fst) := by
  cases vs with
  | nil => rfl
  | cons v vs =>
    rw [List.foldl_cons, Nat.zero_max, foldl_max_succ]
    rfl

/-- A property of elements that can be seen at their positions selects the same elements there. -/
theorem filter_eq_map_filter_zipIdx {p : β → Bool} {q : β × Nat → Bool} {xs : List β}
    (h : ∀ i x, xs[i]? = some x → p x = q (x, i)) :
    xs.filter p = (xs.zipIdx.filter q).map Prod.fst := by
  have hfilter : xs.zipIdx.filter q = xs.zipIdx.filter (p ∘ Prod.fst) :=
    List.filter_congr fun v hv => (h v.2 v.1 (List.mem_zipIdx_iff_getElem?.1 hv)).symm
  rw [hfilter, ← List.filter_map, List.zipIdx_map_fst]

namespace Tree

variable {level i : Nat} {ts : List (Tree α)} {v : Nat × Tree α}

/-! ## Where a node ends -/

mutual

theorem exists_levels_drop : ∀ {level : Nat} {t : Tree α} {i : Nat} {v : Nat × Tree α},
    (t.levels level)[i]? = some v → ∃ rest,
      (t.levels level).drop i = v.2.levels v.1 ++ rest ∧ ∀ w ∈ rest.head?, w.1 ≤ v.1
  | level, node x ts, 0, v, h => by
    rw [levels_eq, List.getElem?_cons_zero] at h
    cases h
    exact ⟨[], (List.append_nil _).symm, nofun⟩
  | level, node x ts, i + 1, v, h => by
    rw [levels_eq, List.getElem?_cons_succ] at h
    rw [levels_eq level (node x ts), List.drop_succ_cons]
    exact exists_levelsAll_drop h

/-- Where a node stands, all that is below it follows, and then a node that is no deeper, if any. -/
theorem exists_levelsAll_drop : ∀ {level : Nat} {ts : List (Tree α)} {i : Nat} {v : Nat × Tree α},
    (levelsAll level ts)[i]? = some v → ∃ rest,
      (levelsAll level ts).drop i = v.2.levels v.1 ++ rest ∧ ∀ w ∈ rest.head?, w.1 ≤ v.1
  | _, [], i, v, h => by cases h
  | level, t :: ts, i, v, h => by
    have hle : level ≤ v.1 := level_le_of_mem_levelsAll v (List.mem_of_getElem? h)
    rw [levelsAll] at h ⊢
    rw [List.drop_append]
    rcases Nat.lt_or_ge i (t.levels level).length with hlt | hge
    · -- the node is in the first tree, and the next tree begins on the level of this one
      rw [List.getElem?_append_left hlt] at h
      obtain ⟨rest, hdrop, hrest⟩ := exists_levels_drop h
      refine ⟨rest ++ levelsAll level ts, ?_, ?_⟩
      · rw [Nat.sub_eq_zero_of_le hlt.le, List.drop_zero, hdrop, List.append_assoc]
      · cases rest with
        | cons w rest => exact hrest
        | nil =>
          cases ts with
          | nil => exact nofun
          | cons u ts =>
            rw [List.nil_append, levelsAll, levels_eq]
            intro w hw
            cases hw
            exact hle
    · rw [List.getElem?_append_right hge] at h
      rw [List.drop_eq_nil_of_le hge, List.nil_append]
      exact exists_levelsAll_drop h

end

theorem levelsAll_isPrefix_drop (h : (levelsAll level ts)[i]? = some v) :
    v.2.levels v.1 <+: (levelsAll level ts).drop i := by
  obtain ⟨rest, hdrop, _⟩ := exists_levelsAll_drop h
  exact ⟨rest, hdrop.symm⟩

/-- The depths behind a node begin with those of the nodes below it. -/
theorem exists_depths_drop (h : (levelsAll level ts)[i]? = some v) : ∃ rest : List Nat,
    ((levelsAll level ts).map Prod.fst).drop (i + 1) =
      (levelsAll (v.1 + 1) v.2.replies).map Prod.fst ++ rest ∧ ∀ d ∈ rest.head?, d ≤ v.1 := by
  obtain ⟨rest, hdrop, hrest⟩ := exists_levelsAll_drop h
  refine ⟨rest.map Prod.fst, ?_, ?_⟩
  · rw [← List.drop_drop, ← List.map_drop, hdrop, levels_eq, List.cons_append, List.map_cons,
      List.drop_one, List.tail_cons, List.map_append]
  · intro d hd
    rw [List.head?_map] at hd
    obtain ⟨w, hw, rfl⟩ := Option.mem_map.1 hd
    exact hrest w hw

/-- The entries below a node end as many positions behind it as it has items. -/
theorem blockEnd_eq (h : (levelsAll level ts)[i]? = some v) :
    blockEnd ((levelsAll level ts).map Prod.fst) i v.1 = i + v.2.count := by
  obtain ⟨rest, hdrop, hrest⟩ := exists_depths_drop h
  have hbelow : ((levelsAll (v.1 + 1) v.2.replies).map Prod.fst).findIdx (· ≤ v.1) =
      ((levelsAll (v.1 + 1) v.2.replies).map Prod.fst).length := by
    rw [List.findIdx_eq_length, List.forall_mem_map]
    exact fun w hw => decide_eq_false (Nat.not_le_of_lt (level_le_of_mem_levelsAll w hw))
  have hbehind : rest.findIdx (· ≤ v.1) = 0 := by
    cases rest with
    | nil => rfl
    | cons d rest => rw [List.findIdx_cons, decide_eq_true (hrest d rfl), cond_true]
  rw [blockEnd, hdrop, List.findIdx_append, if_neg (Nat.not_lt_of_le hbelow.ge), hbehind,
    Nat.zero_add, List.length_map, length_levelsAll, count_eq, Nat.add_assoc, Nat.add_comm 1]

/-- The depths of a node and of all below it, counted from the node. -/
theorem depths_of_block (h : (levelsAll level ts)[i]? = some v) :
    ((((levelsAll level ts).map Prod.fst).take (i + v.2.count)).drop i).map (· - v.1) =
      (v.2.levels 0).map Prod.fst := by
  obtain ⟨rest, hdrop, _⟩ := exists_levelsAll_drop h
  have hlevels := levels_add v.1 0 v.2
  rw [Nat.add_zero] at hlevels
  rw [List.drop_take, ← List.map_drop, Nat.add_sub_cancel_left, hdrop, ← List.map_take,
    List.take_left' (length_levels v.1 v.2), hlevels, List.map_map, List.map_map]
  exact List.map_congr_left fun w _ => Nat.add_sub_cancel_left _ _

/-- Nobody replied to a node exactly if the entry behind it, if any, is no deeper. -/
theorem isLeaf_eq_all_le (h : (levelsAll level ts)[i]? = some v) :
    v.2.isLeaf = (((levelsAll level ts).map Prod.fst)[i + 1]?).all (· ≤ v.1) := by
  obtain ⟨rest, hdrop, hrest⟩ := exists_depths_drop h
  rw [← Nat.add_zero (i + 1), ← List.getElem?_drop, hdrop, isLeaf]
  cases hreplies : v.2.replies with
  | nil =>
    cases rest with
    | nil => rfl
    | cons d rest => exact (decide_eq_true (hrest d rfl)).symm
  | cons r rs =>
    rw [levelsAll, levels_eq]
    exact (decide_eq_false (Nat.not_succ_le_self v.1)).symm

/-- On the level on which the listing begins there are the roots and nothing else. -/
theorem filter_levelsAll (level : Nat) (ts : List (Tree α)) :
    (levelsAll level ts).filter (fun v => v.1 == level) = ts.map fun t => (level, t) := by
  induction ts with
  | nil => rfl
  | cons t ts ih =>
    have hbelow : (levelsAll (level + 1) t.replies).filter (fun v => v.1 == level) = [] := by
      refine List.filter_eq_nil_iff.2 fun v hv => ?_
      rw [beq_iff_eq]
      exact Nat.ne_of_gt (level_le_of_mem_levelsAll v hv)
    rw [levelsAll, List.filter_append, levels_eq,
      List.filter_cons_of_pos (by exact beq_self_eq_true level), hbelow, ih]
    rfl

theorem depth_eq_levelsReached (t : Tree α) : t.depth = levelsReached ((t.levels 0).map Prod.fst) := by
  rw [← foldl_max_eq_levelsReached, depth, Walk.depth, Walk.fold_eq, ← Walk.toList_eq, toList_walk]

theorem isLeaf_iff {t : Tree α} : t.isLeaf = true ↔ t.replies = [] :=
  List.isEmpty_iff

theorem count_eq_one_iff {t : Tree α} : t.count = 1 ↔ t.isLeaf = true := by
  obtain ⟨x, _ | ⟨⟨y, us⟩, ts⟩⟩ := t
  · exact ⟨fun _ => rfl, fun _ => rfl⟩
  · refine ⟨fun h => ?_, nofun⟩
    rw [count_eq, replies_node, countAll_cons, count_eq (node y us)] at h
    omega

end Tree

namespace Forest

theorem map_fst_entries (f : Forest α) :
    f.entries.map Prod.fst = (Tree.levelsAll 0 f.roots).map Prod.fst := by
  rw [entries_eq, List.map_map]
  rfl

/-- The entries that no deeper entry follows are the leaves. -/
theorem leaves_eq_filter_zipIdx (f : Forest α) : f.leaves =
    (f.entries.zipIdx.filter fun e => ((f.entries.map Prod.fst)[e.2 + 1]?).all (· ≤ e.1.1)).map
      (·.1.2) := by
  have hleaf : ∀ i (v : Nat × Tree α), f.walk.toList[i]? = some v →
      v.2.isLeaf = ((f.entries.map Prod.fst)[i + 1]?).all (· ≤ v.1) := by
    intro i v h
    rw [toList_walk] at h
    rw [map_fst_entries]
    exact Tree.isLeaf_eq_all_le h
  have hselected := filter_eq_map_filter_zipIdx
    (q := fun w : (Nat × Tree α) × Nat => ((f.entries.map Prod.fst)[w.2 + 1]?).all (· ≤ w.1.1)) hleaf
  rw [leaves, hselected]
  generalize f.entries.map Prod.fst = depths
  rw [entries, List.zipIdx_map, List.filter_map, List.map_map, List.map_map]
  rfl

/-- The measures of a forest, and of the nodes in it, can be read off the depths of its listing. There are
as many items as entries, and one level more than the greatest depth; the roots are the entries of depth 0,
and the leaves those that no deeper entry follows. A node extends from its own entry up to the next one
that is no deeper. And all of these measures are those of the recursion on the trees. -/
theorem measured_by_depths (f : Forest α) :
    let depths := f.entries.map Prod.fst
    f.size = f.entries.length ∧
    f.depth = levelsReached depths ∧
    f.roots = (f.walk.toList.filter fun v => v.1 == 0).map Prod.snd ∧
    f.roots.map Tree.item = (f.entries.filter fun e => e.1 == 0).map Prod.snd ∧
    f.leaves = (f.entries.zipIdx.filter fun e => (depths[e.2 + 1]?).all (· ≤ e.1.1)).map (·.1.2) ∧
    (∀ i d x, f.entries[i]? = some (d, x) → ∃ t, f.walk.toList[i]? = some (d, t) ∧ t.item = x ∧
      t.size = blockEnd depths i d - i ∧
      t.depth = levelsReached (((depths.take (blockEnd depths i d)).drop i).map (· - d)) ∧
      (t.isLeaf = true ↔ blockEnd depths i d = i + 1)) ∧
    (f.size = Tree.countAll f.roots ∧ f.depth = Tree.heightAll f.roots ∧
      f.leaves = Tree.leafItemsAll f.roots) ∧
    ∀ t : Tree α, t.size = t.count ∧ t.depth = t.height ∧ (t.isLeaf = true ↔ t.replies = []) := by
  intro depths
  have hdepths : depths = (Tree.levelsAll 0 f.roots).map Prod.fst := f.map_fst_entries
  have hroots : (f.walk.toList.filter fun v => v.1 == 0) = f.roots.map fun t => (0, t) := by
    rw [toList_walk, Tree.filter_levelsAll]
  refine ⟨?_, ?_, ?_, ?_, f.leaves_eq_filter_zipIdx, ?_,
    ⟨f.size_eq_countAll, f.depth_eq, f.leaves_eq_leafItemsAll⟩,
    fun t => ⟨t.size_eq, t.depth_eq, Tree.isLeaf_iff⟩⟩
  · rw [size, entries, List.length_map]
  · rw [depth_eq_foldl, foldl_max_eq_levelsReached, ← hdepths]
  · rw [hroots, List.map_map]
    exact (List.map_id' _).symm
  · rw [entries, List.filter_map]
    show _ = ((f.walk.toList.filter fun v => v.1 == 0).map _).map _
    rw [hroots, List.map_map, List.map_map]
    rfl
  · intro i d x h
    rw [entries, List.getElem?_map, Option.map_eq_some_iff] at h
    obtain ⟨⟨_, t⟩, ht, hentry⟩ := h
    obtain ⟨rfl, rfl⟩ := Prod.mk.inj hentry
    have hnode := ht
    rw [toList_walk] at hnode
    rw [hdepths, Tree.blockEnd_eq hnode]
    refine ⟨t, ht, rfl, ?_, ?_, ?_⟩
    · rw [t.size_eq, Nat.add_sub_cancel_left]
    · rw [Tree.depths_of_block hnode, t.depth_eq_levelsReached]
    · rw [Nat.add_left_cancel_iff, Tree.count_eq_one_iff]

/-- The depths are 0, 1, 2, 1 and 0. The second entry, of depth 1, extends up to the fourth one. -/
theorem measured_by_depths_of_numbers :
    let f : Forest Nat := ⟨[.node 1 [.node 2 [.leaf 3], .leaf 4], .leaf 5]⟩
    f.size = 5 ∧ f.depth = 3 ∧ f.leaves = [3, 4, 5] ∧ f.entries[1]? = some (1, 2) ∧
      ∃ t, f.walk.toList[1]? = some (1, t) ∧ t.item = 2 ∧ t.size = 2 ∧ t.depth = 2 ∧
        t.isLeaf = false := by
  intro f
  have hentries : f.entries = [(0, 1), (1, 2), (2, 3), (1, 4), (0, 5)] := f.entries_eq
  obtain ⟨hsize, hdepth, _, _, hleaves, hnodes, _, _⟩ := f.measured_by_depths
  rw [hentries] at hsize hdepth hleaves hnodes
  obtain ⟨t, ht, hitem, htsize, htdepth, htleaf⟩ := hnodes 1 1 2 rfl
  refine ⟨hsize, hdepth, hleaves, by rw [hentries]; rfl, t, ht, hitem, htsize, htdepth, ?_⟩
  exact Bool.eq_false_iff.2 fun hleaf => absurd (htleaf.1 hleaf) (by decide)

end Forest

end Discussion
