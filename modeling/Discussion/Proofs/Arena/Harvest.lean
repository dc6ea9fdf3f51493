import Discussion.Proofs.Arena.Insertion
import Discussion.Proofs.Tree.Measures

/-!
# The forest of an arena

The forest is built from the leaves up. Each node takes the trees that were built for its replies out of
a store, and it is the order of the traversal that puts them there in time. What comes out is what
following the links from the roots leads to, and nothing else.

* `Anchored calls k`: the parents that are named from the `k`-th insertion on, each one inserted before
  the node that names it, lead to a root.

Results:
1. `Unfolds.unique`: the links below the roots lead to one list of trees.
2. `rooted_insertAll_iff`: what is reached from the roots are the anchored nodes.
3. `Unfolds.takeAll_store`: when a node is built, the trees of all its replies are in the store.
4. `toForest_insertAll`: the forest of an arena, whatever insertions have filled it.
-/

namespace Discussion

universe u v w

variable {α : Type u}

/-! ## Post-order -/

namespace Tree

mutual

/-- What is below a node comes right before it in post-order. -/
theorem exists_postorder_split : ∀ {t u : Tree α}, u ∈ t.nodes →
    ∃ before after, t.postorder = (before ++ postorderAll u.replies) ++ u.item :: after
  | .node x ts, u, hu => by
    rcases mem_nodes.1 hu with rfl | hu
    · exact ⟨[], [], rfl⟩
    · rw [replies_node] at hu
      obtain ⟨before, after, h⟩ := exists_postorderAll_split hu
      exact ⟨before, after ++ [x], by rw [postorder, h, List.append_assoc, List.cons_append]⟩

theorem exists_postorderAll_split : ∀ {ts : List (Tree α)} {u : Tree α}, u ∈ nodesAll ts →
    ∃ before after, postorderAll ts = (before ++ postorderAll u.replies) ++ u.item :: after
  | [], _, hu => absurd hu List.not_mem_nil
  | t :: ts, u, hu => by
    rw [nodesAll_cons] at hu
    rcases List.mem_append.1 hu with hu | hu
    · obtain ⟨before, after, h⟩ := exists_postorder_split hu
      exact ⟨before, after ++ postorderAll ts, by
        rw [postorderAll, h, List.append_assoc, List.cons_append]⟩
    · obtain ⟨before, after, h⟩ := exists_postorderAll_split hu
      exact ⟨t.postorder ++ before, after, by
        rw [postorderAll, h, List.append_assoc t.postorder, List.append_assoc t.postorder]⟩

end

mutual

theorem postorder_perm : ∀ t : Tree α, t.postorder.Perm (t.nodes.map item)
  | .node x ts => by
    rw [postorder, nodes_node, List.map_cons]
    exact (List.perm_append_singleton x _).trans ((postorderAll_perm ts).cons x)

theorem postorderAll_perm : ∀ ts : List (Tree α),
    (postorderAll ts).Perm ((nodesAll ts).map item)
  | [] => .refl _
  | t :: ts => by
    rw [postorderAll, nodesAll_cons, List.map_append]
    exact (postorder_perm t).append (postorderAll_perm ts)

end

end Tree

namespace Arena

/-! ## One unfolding -/

theorem eq_of_map_eq {β : Type v} {γ : Type w} {key : β → γ} {bs cs : List β}
    (h : bs.map key = cs.map key) (unique : ∀ b ∈ bs, ∀ c ∈ cs, key b = key c → b = c) :
    bs = cs := by
  induction bs generalizing cs with
  | nil => exact (List.map_eq_nil_iff.1 h.symm).symm
  | cons b bs ih =>
    cases cs with
    | nil => cases h
    | cons c cs =>
      obtain ⟨hkey, hkeys⟩ := List.cons.inj h
      rw [unique b (.head _) c (.head _) hkey, ih hkeys fun b hb c hc =>
        unique b (.tail _ hb) c (.tail _ hc)]

theorem Shows.unique {a : Arena α} {t : Tree (Index × Node α)} (ht : ∀ v ∈ t.nodes, a.Shows v) :
    ∀ {u : Tree (Index × Node α)}, (∀ v ∈ u.nodes, a.Shows v) → t.item.1 = u.item.1 → t = u := by
  induction t with
  | node x ts ih =>
    rintro ⟨y, us⟩ hu hindex
    obtain ⟨hx, hts⟩ : a.get? x.1 = some x.2 ∧ ts.map (·.item.1) = a.under (some x.1) :=
      ht _ (Tree.self_mem_nodes _)
    obtain ⟨hy, hus⟩ : a.get? y.1 = some y.2 ∧ us.map (·.item.1) = a.under (some y.1) :=
      hu _ (Tree.self_mem_nodes _)
    rw [Tree.item_node, Tree.item_node] at hindex
    rw [← hindex] at hy hus
    -- the index tells the node, and with it the indices of the replies
    have hitem : x = y := Prod.ext hindex (Option.some.inj (hx.symm.trans hy))
    have hreplies : ts = us := by
      refine eq_of_map_eq (hts.trans hus.symm) fun t ht' u hu' => ?_
      refine ih t ht' (fun v hv => ht v ?_) (fun v hv => hu v ?_)
      · exact Tree.mem_nodes.2 (.inr (Tree.mem_nodesAll.2 ⟨t, ht', hv⟩))
      · exact Tree.mem_nodes.2 (.inr (Tree.mem_nodesAll.2 ⟨u, hu', hv⟩))
    rw [hitem, hreplies]

theorem Unfolds.unique {a : Arena α} {ts us : List (Tree (Index × Node α))} (hts : a.Unfolds ts)
    (hus : a.Unfolds us) : us = ts := by
  refine eq_of_map_eq (hus.roots.trans hts.roots.symm) fun u hu t ht => ?_
  refine Shows.unique (fun v hv => hus.shows v ?_) (fun v hv => hts.shows v ?_)
  · exact Tree.mem_nodesAll.2 ⟨u, hu, hv⟩
  · exact Tree.mem_nodesAll.2 ⟨t, ht, hv⟩

/-! ## The store -/

theorem getElem?_foldl_add_of_not_mem {listed : List (Index × Node α)} {built : Built α} {j : Index}
    (hj : j ∉ listed.map Prod.fst) (hbuilt : built[j]? = none) :
    (listed.foldl Built.add built)[j]? = none := by
  induction listed generalizing built with
  | nil => exact hbuilt
  | cons l listed ih =>
    rw [List.map_cons, List.mem_cons, not_or] at hj
    obtain ⟨hne, hj⟩ := hj
    refine ih hj ?_
    rw [Built.getElem?_add, if_neg hne]
    split
    · rfl
    · exact hbuilt

theorem Unfolds.nodup_postorder {a : Arena α} {ts : List (Tree (Index × Node α))}
    (hu : a.Unfolds ts) (h : a.Coherent) : (a.postorder.map Prod.fst).Nodup := by
  have hperm := (Tree.postorderAll_perm ts).map Prod.fst
  rw [List.map_map] at hperm
  rw [hu.postorder_eq h]
  exact hperm.nodup_iff.2 (hu.nodup_index h)

/-- What is listed before a node ends with what is below it, and nothing of that is listed earlier. -/
theorem Unfolds.exists_listed {a : Arena α} {ts : List (Tree (Index × Node α))} (hu : a.Unfolds ts)
    (h : a.Coherent) {before after : List (Index × Node α)} {i : Index} {n : Node α}
    (hlisted : a.postorder = before ++ (i, n) :: after) :
    ∃ t ∈ Tree.nodesAll ts, t.item = (i, n) ∧ ∃ earlier,
      before = earlier ++ Tree.postorderAll t.replies ∧
      ∀ u ∈ Tree.nodesAll t.replies, u.item.1 ∉ earlier.map Prod.fst := by
  have nodup := hu.nodup_postorder h
  rw [hu.postorder_eq h] at hlisted nodup
  obtain ⟨t, ht, hitem⟩ : ∃ t ∈ Tree.nodesAll ts, t.item = (i, n) := by
    have hmem : (i, n) ∈ Tree.postorderAll ts := hlisted ▸ List.mem_append_right _ (.head _)
    exact List.mem_map.1 ((Tree.postorderAll_perm ts).mem_iff.1 hmem)
  obtain ⟨earlier, later, hsplit⟩ := Tree.exists_postorderAll_split ht
  refine ⟨t, ht, hitem, earlier, ?_, fun u hu hmem => ?_⟩
  · -- a list without repetitions is split at an element in one way
    have hnot := (List.nodup_middle.1 (hlisted ▸ nodup.of_map)).notMem
    rw [List.mem_append, not_or] at hnot
    have heq := hlisted.symm.trans hsplit
    rw [hitem] at heq
    exact ((List.append_cons_inj_of_notMem hnot.1 hnot.2).1 heq).1
  · have hu := (Tree.postorderAll_perm _).mem_iff.2 (List.mem_map_of_mem (f := Tree.item) hu)
    rw [hsplit, List.append_assoc, List.map_append, List.map_append] at nodup
    exact (List.nodup_append'.1 nodup).2.2 hmem (List.mem_append_left _ (List.mem_map_of_mem hu))

/-- When a node is built, the nodes listed before it have left the trees of all its replies in the
store. -/
theorem Unfolds.length_takeAll {a : Arena α} {ts : List (Tree (Index × Node α))} (hu : a.Unfolds ts)
    (h : a.Coherent) {before after : List (Index × Node α)} {i : Index} {n : Node α}
    (hlisted : a.postorder = before ++ (i, n) :: after) :
    ((before.foldl Built.add ∅).takeAll n.replies).1.length = n.replies.size := by
  obtain ⟨t, ht, hitem, earlier, rfl, apart⟩ := hu.exists_listed h hlisted
  obtain ⟨hn, hreplies⟩ := hu.shows t ht
  rw [hitem] at hn hreplies
  rw [under_eq_of_get? hn] at hreplies
  have hshows : ∀ u ∈ Tree.nodesAll t.replies, a.Shows u := fun u hbelow =>
    hu.shows u (Tree.mem_nodesAll_trans ht (Tree.mem_nodes.2 (.inr hbelow)))
  have fresh : ∀ u ∈ Tree.nodesAll t.replies, (earlier.foldl Built.add ∅)[u.item.1]? = none :=
    fun u hbelow => getElem?_foldl_add_of_not_mem (apart u hbelow) Std.HashMap.getElem?_empty
  have nodup : ((Tree.nodesAll t.replies).map (·.item.1)).Nodup := by
    have hsub := (Tree.nodes_sublist_nodesAll ht).map (·.item.1)
    rw [Tree.nodes_eq] at hsub
    exact (List.nodup_cons.1 (hsub.nodup (hu.nodup_index h))).2
  have nodup_replies : (t.replies.map (·.item.1)).Nodup :=
    ((Tree.sublist_nodesAll _).map _).nodup nodup
  have taken : (((earlier ++ Tree.postorderAll t.replies).foldl Built.add ∅).takeAll n.replies).1 =
      t.replies.map bare := by
    refine Built.takeAll_fst (hreplies ▸ nodup_replies) ?_
    rw [← hreplies, List.map_map, List.map_map]
    refine List.map_congr_left fun r hr => ?_
    rw [Function.comp_apply, List.foldl_append, getElem?_foldl_add_trees hshows nodup _ fresh,
      find?_key nodup_replies hr]
    rfl
  rw [taken, List.length_map, ← Array.length_toList, ← hreplies, List.length_map]

theorem Unfolds.length_takeAll_roots {a : Arena α} {ts : List (Tree (Index × Node α))}
    (hu : a.Unfolds ts) (h : a.Coherent) :
    ((a.postorder.foldl Built.add ∅).takeAll a.roots).1.length = a.roots.size := by
  have hroots : a.toForest.roots.length = (ts.map (·.item.1)).length := by
    rw [hu.toForest_eq h, List.length_map, List.length_map]
  rwa [hu.roots] at hroots

theorem Unfolds.size_toForest {a : Arena α} {ts : List (Tree (Index × Node α))} (hu : a.Unfolds ts)
    (h : a.Coherent) : a.toForest.size = ((Tree.nodesAll ts).map (·.item.1)).length := by
  rw [Forest.size_eq, hu.toForest_eq h, Forest.nodes, nodesAll_bare, List.length_map,
    List.length_map]

/-! ## Chains of parents -/

/-- The parents that are named from the `k`-th insertion on, each one inserted before the node that names
it, lead to a root. -/
inductive Anchored (calls : List (α × Option Index)) : Nat → Prop
  | root {k : Nat} {x : α} : calls[k]? = some (x, none) → Anchored calls k
  | reply {k : Nat} {x : α} {p : Index} :
      calls[k]? = some (x, some p) → p.Within k → Anchored calls p.slot → Anchored calls k

variable {calls : List (α × Option Index)}

theorem mem_under_insertAll_iff {q : Option Index} {k : Nat} :
    ⟨k, 0⟩ ∈ (empty.insertAll calls).under q ↔
      ∃ x, calls[k]? = some (x, q) ∧ ∀ p ∈ q, p.Within (k + 1) := by
  rw [(coherent_insertAll calls).mem_under_iff, label?_insertAll]

theorem Anchored.rooted {k : Nat} (hk : Anchored calls k) :
    (empty.insertAll calls).Rooted ⟨k, 0⟩ := by
  induction hk with
  | root hcall => exact .root (mem_under_insertAll_iff.2 ⟨_, hcall, nofun⟩)
  | @reply k x p hcall hp _ ih =>
    obtain ⟨slot, generation⟩ := p
    obtain rfl : generation = 0 := hp.1
    refine ih.reply (mem_under_insertAll_iff.2 ⟨x, hcall, fun _ heq => ?_⟩)
    exact Option.mem_some.1 heq ▸ hp.succ

/-- What is reached from the roots are the nodes whose chain of parents comes to a root. -/
theorem rooted_insertAll_iff {i : Index} :
    (empty.insertAll calls).Rooted i ↔ i.generation = 0 ∧ Anchored calls i.slot := by
  have h := coherent_insertAll calls
  constructor
  · intro hi
    induction hi with
    | @root i hroot =>
      obtain ⟨slot, generation⟩ := i
      obtain rfl : generation = 0 := (h.within hroot).1
      obtain ⟨x, hcall, _⟩ := mem_under_insertAll_iff.1 hroot
      exact ⟨rfl, .root hcall⟩
    | @reply p i hp hreply ih =>
      have hlt := h.slot_lt hp hreply
      obtain ⟨slot, generation⟩ := i
      obtain rfl : generation = 0 := (h.within hreply).1
      obtain ⟨x, hcall, _⟩ := mem_under_insertAll_iff.1 hreply
      exact ⟨rfl, .reply hcall ⟨ih.1, hlt⟩ ih.2⟩
  · obtain ⟨slot, generation⟩ := i
    rintro ⟨rfl, hi⟩
    exact hi.rooted

/-- A node whose parent was not there is not reached, and neither is anything below it. -/
theorem not_rooted_below_detached {k : Nat} {x : α} {p : Index} (hcall : calls[k]? = some (x, some p))
    (hp : ¬ p.Within k) {j : Index}
    (hj : Relation.ReflTransGen (empty.insertAll calls).Lists ⟨k, 0⟩ j) :
    ¬ (empty.insertAll calls).Rooted j := by
  induction hj with
  | refl =>
    intro hk
    cases (rooted_insertAll_iff.1 hk).2 with
    | root hroot => cases hcall.symm.trans hroot
    | reply hreply hq _ =>
      cases hcall.symm.trans hreply
      exact hp hq
  | tail _ hreply ih => exact fun hk => ih ((coherent_insertAll calls).rooted_of_reply hreply hk)

/-- All nodes are anchored exactly if no insertion names a parent that is not there. -/
theorem all_anchored_iff : (∀ k < calls.length, Anchored calls k) ↔
    ∀ (k : Nat) (x : α) (p : Index), calls[k]? = some (x, some p) → p.Within k := by
  constructor
  · intro hall k x p hcall
    cases hall k (List.getElem?_eq_some_iff.1 hcall).1 with
    | root hroot => cases hcall.symm.trans hroot
    | reply hreply hp _ =>
      cases hcall.symm.trans hreply
      exact hp
  · intro hearlier k hk
    induction k using Nat.strongRecOn with
    | ind k ih =>
      obtain ⟨⟨x, _ | p⟩, hcall⟩ : ∃ call, calls[k]? = some call :=
        ⟨_, List.getElem?_eq_getElem hk⟩
      · exact .root hcall
      · have hp := hearlier k x p hcall
        exact .reply hcall hp (ih p.slot hp.2 (hp.2.trans hk))

/-- The forest has as many nodes as the arena exactly if all nodes are reached. -/
theorem Unfolds.size_toForest_eq_iff {ts : List (Tree (Index × Node α))}
    (hu : (empty.insertAll calls).Unfolds ts) :
    (empty.insertAll calls).toForest.size = (empty.insertAll calls).size ↔
      ∀ k < calls.length, Anchored calls k := by
  have h := coherent_insertAll calls
  have hmem (k : Nat) : Index.mk k 0 ∈ (Tree.nodesAll ts).map (·.item.1) ↔ Anchored calls k := by
    rw [List.mem_map, ← hu.rooted_iff, rooted_insertAll_iff, and_iff_right rfl]
  have hsub : (Tree.nodesAll ts).map (·.item.1) ⊆ (List.range calls.length).map (Index.mk · 0) := by
    intro i hi
    obtain ⟨q, hq⟩ := Rooted.exists_place (hu.rooted_iff.2 (List.mem_map.1 hi))
    obtain ⟨hgeneration, hslot⟩ := h.within hq
    rw [size_insertAll] at hslot
    exact List.mem_map.2 ⟨i.slot, List.mem_range.2 hslot, by rw [← hgeneration]⟩
  have hlength : ((List.range calls.length).map (Index.mk · 0)).length = calls.length := by
    rw [List.length_map, List.length_range]
  rw [hu.size_toForest h, size_insertAll]
  constructor
  · intro heq k hk
    have hperm := ((hu.nodup_index h).subperm hsub).perm_of_length_le (by rw [heq, hlength])
    exact (hmem k).1 (hperm.mem_iff.2 (List.mem_map_of_mem (List.mem_range.2 hk)))
  · intro hall
    have hnodup : ((List.range calls.length).map (Index.mk · 0)).Nodup :=
      List.nodup_range.map fun _ _ heq => (Index.mk.inj heq).1
    have hsup : (List.range calls.length).map (Index.mk · 0) ⊆
        (Tree.nodesAll ts).map (·.item.1) := by
      intro i hi
      obtain ⟨k, hk, rfl⟩ := List.mem_map.1 hi
      exact (hmem k).2 (hall k (List.mem_range.1 hk))
    have hle := ((hu.nodup_index h).subperm hsub).length_le
    have hge := (hnodup.subperm hsup).length_le
    omega

/-! ## Every forest -/

/-- Whatever parents a sequence of insertions names, following the links from the roots leads to one list
of trees, and the forest of the arena has these trees with the items of their nodes. The roots stand in
the order of insertion. A node stands in the forest once if its chain of parents, each one inserted before
the node that names it, comes to a root, and not at all otherwise. No reply and no root is without its
tree when it is asked for. A node whose parent was not there is left out, with all that is listed below
it, so the forest is as large as the arena exactly if there is no such node. -/
theorem toForest_insertAll (calls : List (α × Option Index)) :
    let a : Arena α := empty.insertAll calls
    ∃ ts : List (Tree (Index × Node α)),
      (∀ us, a.Unfolds us ↔ us = ts) ∧ a.toForest = ⟨ts.map bare⟩ ∧
      (a.roots.toList.Pairwise fun i j => i.slot < j.slot) ∧
      ((Tree.nodesAll ts).map (·.item.1)).Nodup ∧
      (∀ i, i ∈ (Tree.nodesAll ts).map (·.item.1) ↔ a.Rooted i) ∧
      (∀ i, a.Rooted i ↔ i.generation = 0 ∧ Anchored calls i.slot) ∧
      (∀ before i n after, a.postorder = before ++ (i, n) :: after →
        ((before.foldl Built.add ∅).takeAll n.replies).1.length = n.replies.size) ∧
      ((a.postorder.foldl Built.add ∅).takeAll a.roots).1.length = a.roots.size ∧
      (∀ (k : Nat) (x : α) (p : Index), calls[k]? = some (x, some p) → ¬ p.Within k →
        ∀ j, Relation.ReflTransGen a.Lists ⟨k, 0⟩ j → ¬ a.Rooted j) ∧
      (a.toForest.size = a.size ↔
        ∀ (k : Nat) (x : α) (p : Index), calls[k]? = some (x, some p) → p.Within k) := by
  intro a
  have h : a.Coherent := coherent_insertAll calls
  obtain ⟨ts, hts⟩ := h.exists_unfolds
  refine ⟨ts, fun us => ⟨hts.unique, fun heq => heq ▸ hts⟩, hts.toForest_eq h, h.sorted none,
    hts.nodup_index h, fun i => ?_, fun i => rooted_insertAll_iff,
    fun before i n after => hts.length_takeAll h, hts.length_takeAll_roots h,
    fun k x p hcall hp j => not_rooted_below_detached hcall hp, ?_⟩
  · rw [List.mem_map, hts.rooted_iff]
  · rw [hts.size_toForest_eq_iff, all_anchored_iff]

/-- A root with a reply, a node that is its own reply with a reply of its own, and two nodes whose parents
are not there: one names an index of another generation, one the index of a root that comes later. -/
theorem toForest_insertAll_of_numbers :
    let calls : List (Nat × Option Index) := [(10, none), (11, some ⟨0, 0⟩), (12, some ⟨2, 0⟩),
      (13, some ⟨2, 0⟩), (14, some ⟨0, 1⟩), (15, some ⟨6, 0⟩), (16, none)]
    (empty.insertAll calls).toForest = ⟨[.node 10 [.node 11 []], .node 16 []]⟩ ∧
    (empty.insertAll calls).toForest.size ≠ (empty.insertAll calls).size ∧
    ¬ (empty.insertAll calls).Rooted ⟨3, 0⟩ ∧ ¬ (empty.insertAll calls).Rooted ⟨5, 0⟩ := by
  intro calls
  obtain ⟨ts, hunique, hforest, _, _, _, _, _, _, hdetached, hsize⟩ := toForest_insertAll calls
  have hts : [Tree.node (⟨0, 0⟩, ⟨10, none, #[⟨1, 0⟩]⟩) [.node (⟨1, 0⟩, ⟨11, some ⟨0, 0⟩, #[]⟩) []],
      .node (⟨6, 0⟩, ⟨16, none, #[]⟩) []] = ts := by
    refine (hunique _).1 ⟨rfl, ?_⟩
    simp only [Tree.nodesAll_cons, Tree.nodes_node, Tree.nodesAll_nil, List.append_nil,
      List.cons_append, List.nil_append, List.forall_mem_cons, List.not_mem_nil, IsEmpty.forall_iff,
      implies_true, and_true]
    exact ⟨⟨rfl, rfl⟩, ⟨rfl, rfl⟩, rfl, rfl⟩
  refine ⟨?_, fun heq => ?_, ?_, ?_⟩
  · rw [hforest, ← hts]
    rfl
  · exact absurd (hsize.1 heq 5 15 ⟨6, 0⟩ rfl) (by decide)
  · refine hdetached 2 12 ⟨2, 0⟩ rfl (by decide) ⟨3, 0⟩ (.single ?_)
    show ⟨3, 0⟩ ∈ (empty.insertAll calls).under (some ⟨2, 0⟩)
    decide
  · exact hdetached 5 15 ⟨6, 0⟩ rfl (by decide) ⟨5, 0⟩ .refl

end Arena

end Discussion
