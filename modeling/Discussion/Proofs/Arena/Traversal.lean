import Discussion.Proofs.Arena.Harvest

/-!
# Traversals of an arena

The two loops over an arena follow its links and keep no record of the nodes that they have seen. Here they
are run without a bound on their steps: `Traverses` is the one that lists the nodes, and

* `Measures a state steps depth`: measuring comes from the state to its end in so many steps, with this
  depth.

Results:
1. `not_traverses_loop`: a traversal that comes to a node that is its own reply has no end.
2. `Unfolds.measures`: measuring takes one step for each node, and finds the height of the trees.
3. `traversals_insertAll`: both loops come to their end, whatever insertions have filled the arena, and agree
   with the forest that is built from it.
-/

namespace Discussion

universe u v

variable {α : Type u} {β : Type v}

namespace Tree

mutual

theorem postorder_relabel (g : α → β) : ∀ t : Tree α, (t.relabel g).postorder = t.postorder.map g
  | node x ts => by
    rw [relabel, relabelAll_eq_map, postorder, postorder, postorderAll_relabel g ts, List.map_append]
    rfl

theorem postorderAll_relabel (g : α → β) : ∀ ts : List (Tree α),
    postorderAll (ts.map (relabel g)) = (postorderAll ts).map g
  | [] => rfl
  | t :: ts => by
    rw [List.map_cons, postorderAll, postorderAll, List.map_append, postorder_relabel g t,
      postorderAll_relabel g ts]

end

end Tree

namespace Arena

variable {a : Arena α}

/-! ## Loops -/

/-- A step puts other visits in the place of the first one, whatever comes behind it. -/
theorem exists_postorderStep_cons (a : Arena α) (v : Visit) :
    ∃ listed visits, ∀ rest, a.postorderStep (v :: rest) = some (listed, visits ++ rest) := by
  cases hn : a.get? v.index with
  | none => exact ⟨none, [], fun rest => by simp only [postorderStep, hn, List.nil_append]⟩
  | some n =>
    by_cases hexpanded : v.expanded
    · exact ⟨some (v.index, n), [], fun rest => by
        simp only [postorderStep, hn, hexpanded, if_true, List.nil_append]⟩
    · refine ⟨none, n.replies.toList.map (Visit.mk · false) ++ [⟨v.index, true⟩], fun rest => ?_⟩
      rw [List.append_assoc]
      simp only [postorderStep, hn, hexpanded]
      rfl

/-- A traversal that ends comes to every visit that is before it. -/
theorem Traverses.rest {steps : Nat} {front rest : List Visit} {listed : List (Index × Node α)}
    (h : a.Traverses (front ++ rest) steps listed) :
    ∃ steps' ≤ steps, ∃ listed', a.Traverses rest steps' listed' := by
  induction steps generalizing front listed with
  | zero =>
    cases front with
    | nil => exact ⟨0, Nat.le_refl 0, listed, h⟩
    | cons v front =>
      obtain ⟨_, _, hstep⟩ := a.exists_postorderStep_cons v
      cases h with
      | done hdone => cases hdone.symm.trans (hstep _)
  | succ steps ih =>
    cases front with
    | nil => exact ⟨steps + 1, Nat.le_refl _, listed, h⟩
    | cons v front =>
      obtain ⟨_, visits, hstep⟩ := a.exists_postorderStep_cons v
      have hnext : ∃ listed', a.Traverses ((visits ++ front) ++ rest) steps listed' := by
        rw [List.append_assoc]
        cases h with
        | pass hpass hrest =>
          cases hpass.symm.trans (hstep _)
          exact ⟨_, hrest⟩
        | list hlist hrest =>
          cases hlist.symm.trans (hstep _)
          exact ⟨_, hrest⟩
      obtain ⟨listed', hnext⟩ := hnext
      obtain ⟨steps', hle, hrest⟩ := ih hnext
      exact ⟨steps', Nat.le_succ_of_le hle, hrest⟩

/-- Entering a node that is its own reply leads to entering it again, in a later step. -/
theorem not_traverses_loop {p : Index} (hloop : a.Lists p p) (rest : List Visit) (steps : Nat)
    (listed : List (Index × Node α)) : ¬ a.Traverses (⟨p, false⟩ :: rest) steps listed := by
  have again : ∀ rest, ∃ front behind,
      a.postorderStep (⟨p, false⟩ :: rest) = some (none, front ++ ⟨p, false⟩ :: behind) := by
    intro rest
    cases hn : a.get? p with
    | none =>
      unfold Lists at hloop
      rw [under_eq_nil hn] at hloop
      cases hloop
    | some n =>
      obtain ⟨before, after, hreplies⟩ := List.append_of_mem ((lists_iff hn).1 hloop)
      refine ⟨before.map (Visit.mk · false), after.map (Visit.mk · false) ++ ⟨p, true⟩ :: rest, ?_⟩
      rw [postorderStep_enter hn, hreplies, List.map_append, List.map_cons, List.append_assoc,
        List.cons_append]
  -- the run that is left when the node is entered again is shorter, so there is no shortest run
  induction steps using Nat.strongRecOn generalizing rest listed with
  | ind steps ih =>
    intro h
    obtain ⟨front, behind, hstep⟩ := again rest
    cases h with
    | done hdone => cases hdone.symm.trans hstep
    | list hlist _ => cases hlist.symm.trans hstep
    | pass hpass hrest =>
      cases hpass.symm.trans hstep
      obtain ⟨steps', hle, listed', hagain⟩ := hrest.rest
      exact ih steps' (Nat.lt_succ_of_le hle) behind listed' hagain

/-! ## Depth -/

/-- Measuring comes from the given state to its end in so many steps, with this depth. -/
inductive Measures (a : Arena α) : Nat × List (Index × Nat) → Nat → Nat → Prop
  | done {state : Nat × List (Index × Nat)} : a.depthStep state = none → Measures a state 0 state.1
  | step {state next : Nat × List (Index × Nat)} {steps depth : Nat} :
      a.depthStep state = some next → Measures a next steps depth →
      Measures a state (steps + 1) depth

theorem Measures.measureDepth_eq {state : Nat × List (Index × Nat)} {steps bound depth : Nat}
    (h : a.Measures state steps depth) (hle : steps ≤ bound) : a.measureDepth bound state = depth := by
  induction h generalizing bound with
  | done hstep =>
    cases bound with
    | zero => rfl
    | succ bound => rw [measureDepth, hstep]
  | step hstep _ ih =>
    cases bound with
    | zero => cases hle
    | succ bound =>
      rw [measureDepth, hstep]
      exact ih (Nat.le_of_succ_le_succ hle)

theorem depthStep_cons {i : Index} {n : Node α} (hn : a.get? i = some n) (deepest depth : Nat)
    (rest : List (Index × Nat)) : a.depthStep (deepest, (i, depth) :: rest) =
      some (max deepest depth, n.replies.toList.reverse.map (·, depth + 1) ++ rest) := by
  simp only [depthStep, hn]

mutual

/-- One step for each node measures a tree, whose root is `depth` nodes below a root of the arena. -/
theorem measures_tree (a : Arena α) : ∀ t : Tree (Index × Node α), (∀ u ∈ t.nodes, a.Shows u) →
    ∀ {deepest depth rest steps found},
      a.Measures (max deepest (depth + t.height), rest) steps found →
      a.Measures (deepest, (t.item.1, depth + 1) :: rest) (t.count + steps) found
  | .node (i, n) ts, h, deepest, depth, rest, steps, found, hrest => by
    obtain ⟨hn, hreplies⟩ : a.get? i = some n ∧ ts.map (·.item.1) = a.under (some i) :=
      h _ (Tree.self_mem_nodes _)
    have hsteps : (Tree.node (i, n) ts).count + steps = (Tree.countAll ts + steps) + 1 := by
      rw [Tree.count_eq, Tree.replies_node, Nat.add_right_comm]
    have hheight : max deepest (depth + (Tree.node (i, n) ts).height) =
        max (max deepest (depth + 1)) (depth + 1 + Tree.heightAll ts) := by
      rw [Tree.height, Nat.max_assoc]
      congr 1
      omega
    rw [hheight] at hrest
    rw [hsteps, Tree.item_node]
    refine .step (depthStep_cons hn deepest (depth + 1) rest) ?_
    rw [← under_eq_of_get? hn, ← hreplies]
    exact measures_trees a ts (fun u hu => h u (Tree.mem_nodes.2 (.inr hu)))
      (Nat.le_max_right _ _) hrest

/-- The trees stand before the rest with the last one foremost, so the first one is measured last. -/
theorem measures_trees (a : Arena α) : ∀ ts : List (Tree (Index × Node α)),
    (∀ u ∈ Tree.nodesAll ts, a.Shows u) →
    ∀ {deepest depth rest steps found}, depth ≤ deepest →
      a.Measures (max deepest (depth + Tree.heightAll ts), rest) steps found →
      a.Measures (deepest, (ts.map (·.item.1)).reverse.map (·, depth + 1) ++ rest)
        (Tree.countAll ts + steps) found
  | [], _, deepest, depth, rest, steps, found, hle, hrest => by
    rw [Tree.heightAll, Nat.add_zero, Nat.max_eq_left hle] at hrest
    rw [Tree.countAll_nil, Nat.zero_add]
    exact hrest
  | t :: ts, h, deepest, depth, rest, steps, found, hle, hrest => by
    have hheight : max deepest (depth + Tree.heightAll (t :: ts)) =
        max (max deepest (depth + Tree.heightAll ts)) (depth + t.height) := by
      rw [Tree.heightAll, Nat.max_assoc, Nat.add_max_add_left, Nat.max_comm t.height]
    rw [hheight] at hrest
    have htree := measures_tree a t (fun u hu => h u (List.mem_append_left _ hu)) hrest
    rw [List.map_cons, List.reverse_cons, List.map_append, List.append_assoc, Tree.countAll_cons,
      Nat.add_comm t.count, Nat.add_assoc]
    exact measures_trees a ts (fun u hu => h u (List.mem_append_right _ hu)) hle htree

end

variable {ts : List (Tree (Index × Node α))}

theorem Unfolds.measures (hu : a.Unfolds ts) :
    a.Measures a.startChains (Tree.countAll ts) (Tree.heightAll ts) := by
  have hend : a.Measures (max 0 (0 + Tree.heightAll ts), []) 0 (Tree.heightAll ts) := by
    rw [Nat.zero_max, Nat.zero_add]
    exact .done rfl
  have hall := measures_trees a ts hu.shows (Nat.le_refl 0) hend
  rw [hu.roots, List.append_nil] at hall
  exact hall

theorem Unfolds.depth_eq (hu : a.Unfolds ts) (h : a.Coherent) : a.depth = Tree.heightAll ts :=
  hu.measures.measureDepth_eq (hu.countAll_le h)

theorem Unfolds.depth_toForest (hu : a.Unfolds ts) (h : a.Coherent) :
    a.toForest.depth = Tree.heightAll ts := by
  rw [hu.toForest_eq h, Forest.depth_eq]
  exact Tree.heightAll_relabel _ ts

theorem Unfolds.map_item_postorder (hu : a.Unfolds ts) (h : a.Coherent) :
    a.postorder.map (·.2.item) = Tree.postorderAll a.toForest.roots := by
  rw [hu.postorder_eq h, hu.toForest_eq h]
  exact (Tree.postorderAll_relabel _ ts).symm

theorem Unfolds.mem_postorder_iff (hu : a.Unfolds ts) (h : a.Coherent) {i : Index} {n : Node α} :
    (i, n) ∈ a.postorder ↔ a.Rooted i ∧ a.get? i = some n := by
  rw [hu.postorder_eq h, (Tree.postorderAll_perm ts).mem_iff, List.mem_map, hu.rooted_iff]
  constructor
  · intro hmem
    obtain ⟨t, ht, hitem⟩ := hmem
    have hn := (hu.shows t ht).1
    rw [hitem] at hn
    exact ⟨⟨t, ht, congrArg Prod.fst hitem⟩, hn⟩
  · intro hreached
    obtain ⟨⟨t, ht, rfl⟩, hn⟩ := hreached
    exact ⟨t, ht, Prod.ext rfl (Option.some.inj ((hu.shows t ht).1.symm.trans hn))⟩

/-! ## Every arena -/

/-- Whatever parents a sequence of insertions names, both loops come to their end: the traversal after two
steps for each node of the forest, measuring after one. A traversal that came to a node that is its own
reply would not end, but such a node is not reached. What is reached from the roots is listed once, each
node after what is below it and siblings in their order, which is the post-order of the forest; and the
depth that is found is that of the forest. -/
theorem traversals_insertAll (calls : List (α × Option Index)) :
    let a : Arena α := empty.insertAll calls
    a.Traverses a.startVisits (2 * a.toForest.size) a.postorder ∧
    a.Measures a.startChains a.toForest.size a.depth ∧
    (∀ p, a.Lists p p → ¬ a.Rooted p ∧
      ∀ rest steps listed, ¬ a.Traverses (⟨p, false⟩ :: rest) steps listed) ∧
    (a.postorder.map Prod.fst).Nodup ∧
    (∀ i n, (i, n) ∈ a.postorder ↔ a.Rooted i ∧ a.get? i = some n) ∧
    (∃ ts : List (Tree (Index × Node α)),
      a.Unfolds ts ∧ a.postorder = Tree.postorderAll ts ∧ a.toForest = ⟨ts.map bare⟩) ∧
    a.postorder.map (·.2.item) = Tree.postorderAll a.toForest.roots ∧
    a.depth = a.toForest.depth := by
  intro a
  have h : a.Coherent := coherent_insertAll calls
  obtain ⟨ts, hts⟩ := h.exists_unfolds
  have hsize : a.toForest.size = Tree.countAll ts := by
    rw [hts.size_toForest h, List.length_map, Tree.length_nodesAll]
  rw [hsize]
  refine ⟨hts.postorder_eq h ▸ hts.traverses, hts.depth_eq h ▸ hts.measures, fun p hloop => ⟨?_, ?_⟩,
    hts.nodup_postorder h, fun i n => hts.mem_postorder_iff h,
    ⟨ts, hts, hts.postorder_eq h, hts.toForest_eq h⟩, hts.map_item_postorder h, ?_⟩
  · exact h.not_rooted_below_loop hloop .refl
  · exact not_traverses_loop hloop
  · rw [hts.depth_eq h, hts.depth_toForest h]

/-- Two roots, a chain of replies, and a node that is its own reply with a reply of its own. -/
theorem traversals_insertAll_of_numbers :
    let a : Arena Nat := empty.insertAll [(10, none), (11, some ⟨0, 0⟩), (12, some ⟨2, 0⟩),
      (13, some ⟨2, 0⟩), (14, some ⟨1, 0⟩), (15, none), (16, some ⟨0, 0⟩)]
    Tree.postorderAll a.toForest.roots = [14, 11, 16, 10, 15] ∧ a.toForest.depth = 3 ∧
    (∃ steps, a.Traverses a.startVisits steps a.postorder) ∧
    ∀ steps listed, ¬ a.Traverses [⟨⟨2, 0⟩, false⟩] steps listed := by
  intro a
  obtain ⟨hends, _, hloop, _, _, _, hitems, hdepth⟩ := traversals_insertAll [(10, none),
    (11, some ⟨0, 0⟩), (12, some ⟨2, 0⟩), (13, some ⟨2, 0⟩), (14, some ⟨1, 0⟩), (15, none),
    (16, some ⟨0, 0⟩)]
  have hself : a.Lists ⟨2, 0⟩ ⟨2, 0⟩ := by
    show ⟨2, 0⟩ ∈ a.under (some ⟨2, 0⟩)
    decide
  exact ⟨hitems.symm.trans rfl, hdepth.symm.trans rfl, ⟨_, hends⟩, (hloop _ hself).2 []⟩

end Arena

end Discussion
