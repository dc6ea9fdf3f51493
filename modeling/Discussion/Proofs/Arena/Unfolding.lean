import Mathlib.Data.List.Perm.Subperm
import Discussion.Arena.ToForest
import Discussion.Proofs.Arena.Links
import Discussion.Proofs.Tree.Nodes

/-!
# What an arena unfolds to

* `Unfolds a ts`: following the links of `a` from its roots gives the trees `ts`, each node with its
  index.
* `Traverses a visits steps listed`: the post-order traversal comes to its end, without any bound on its
  steps.

Results:
1. `Coherent.exists_unfolds`: the links of a coherent arena unfold to finite trees.
2. `Unfolds.nodup_index`: no index occurs twice in them, so they have at most as many nodes as the
   arena.
3. `Unfolds.traverses`, `Unfolds.postorder_eq`: the traversal ends, and lists them in post-order.
4. `Unfolds.toForest_eq`: the forest built from it has their shape and their items.
-/

namespace Discussion

universe u v w

variable {α : Type u}

namespace Tree

mutual

/-- The items of a tree, each one after everything below it. -/
def postorder : Tree α → List α
  | node x ts => postorderAll ts ++ [x]

/-- The items of a list of trees, each one after everything below it. -/
def postorderAll : List (Tree α) → List α
  | [] => []
  | t :: ts => postorder t ++ postorderAll ts

end

end Tree

namespace Arena

/-- The tree has at its root what the arena has at the index: the node, and the replies listed by it. -/
def Shows (a : Arena α) (t : Tree (Index × Node α)) : Prop :=
  a.get? t.item.1 = some t.item.2 ∧ t.replies.map (·.item.1) = a.under (some t.item.1)

/-- The trees that the links below the roots lead to. -/
structure Unfolds (a : Arena α) (ts : List (Tree (Index × Node α))) : Prop where
  roots : ts.map (·.item.1) = a.under none
  shows : ∀ t ∈ Tree.nodesAll ts, a.Shows t

/-! ## Existence -/

theorem exists_list_of_forall {β : Type v} {γ : Type w} {P : β → Prop} {key : β → γ} {ks : List γ}
    (h : ∀ k ∈ ks, ∃ b, key b = k ∧ P b) : ∃ bs : List β, bs.map key = ks ∧ ∀ b ∈ bs, P b := by
  induction ks with
  | nil => exact ⟨[], rfl, fun _ hb => absurd hb List.not_mem_nil⟩
  | cons k ks ih =>
    obtain ⟨b, rfl, hb⟩ := h k List.mem_cons_self
    obtain ⟨bs, rfl, hbs⟩ := ih fun k' hk' => h k' (List.mem_cons_of_mem _ hk')
    exact ⟨b :: bs, rfl, List.forall_mem_cons.2 ⟨hb, hbs⟩⟩

theorem Coherent.exists_tree {a : Arena α} (h : a.Coherent) {i : Index} (hi : a.Rooted i) :
    ∃ t : Tree (Index × Node α), t.item.1 = i ∧ ∀ u ∈ t.nodes, a.Shows u := by
  -- replies stand in later slots, so the slots behind `i` become fewer
  induction hm : a.size - i.slot using Nat.strongRecOn generalizing i with
  | ind m ih =>
    obtain ⟨q, hq⟩ := hi.exists_place
    obtain ⟨n, hn⟩ := Option.isSome_iff_exists.1 (isSome_get?_iff.2 (h.within hq))
    have hreplies : ∀ j ∈ a.under (some i), ∃ t : Tree (Index × Node α),
        t.item.1 = j ∧ ∀ u ∈ t.nodes, a.Shows u := fun j hj => by
      have hlt := h.slot_lt hi hj
      have hbound := (h.within hj).2
      exact ih (a.size - j.slot) (by omega) (hi.reply hj) rfl
    obtain ⟨ts, hts, hshows⟩ := exists_list_of_forall hreplies
    refine ⟨.node (i, n) ts, rfl, fun u hu => ?_⟩
    rcases Tree.mem_nodes.1 hu with rfl | hu
    · exact ⟨hn, hts⟩
    · obtain ⟨t, ht, hu⟩ := Tree.mem_nodesAll.1 hu
      exact hshows t ht u hu

theorem Coherent.exists_unfolds {a : Arena α} (h : a.Coherent) :
    ∃ ts : List (Tree (Index × Node α)), a.Unfolds ts := by
  obtain ⟨ts, hts, hshows⟩ := exists_list_of_forall fun i hi => h.exists_tree (.root hi)
  refine ⟨ts, hts, fun u hu => ?_⟩
  obtain ⟨t, ht, hu⟩ := Tree.mem_nodesAll.1 hu
  exact hshows t ht u hu

/-! ## Every index once -/

theorem Coherent.nodup_under {a : Arena α} (h : a.Coherent) (q : Option Index) :
    (a.under q).Nodup :=
  (h.sorted q).imp fun {i j} (hlt : i.slot < j.slot) => by
    rintro rfl
    exact Nat.lt_irrefl _ hlt

theorem Coherent.parent_eq {a : Arena α} (h : a.Coherent) {q : Option Index} {i : Index}
    (hi : i ∈ a.under q) : (a.label? i).bind (·.2) = q := by
  obtain ⟨x, hx, _⟩ := (h.mem_under_iff q i).1 hi
  rw [hx]
  rfl

theorem Unfolds.nodup_index {a : Arena α} {ts : List (Tree (Index × Node α))} (hu : a.Unfolds ts)
    (h : a.Coherent) : ((Tree.nodesAll ts).map (·.item.1)).Nodup := by
  refine Tree.nodup_keys _ (fun i => (a.label? i).bind (·.2)) ?_ ?_ ?_ ?_
  · rw [hu.roots]
    exact h.nodup_under none
  · intro t ht
    exact h.parent_eq (hu.roots ▸ List.mem_map_of_mem ht)
  · intro t ht
    rw [(hu.shows t ht).2]
    exact h.nodup_under _
  · intro t ht r hr
    exact h.parent_eq ((hu.shows t ht).2 ▸ List.mem_map_of_mem hr)

theorem Unfolds.countAll_le {a : Arena α} {ts : List (Tree (Index × Node α))} (hu : a.Unfolds ts)
    (h : a.Coherent) : Tree.countAll ts ≤ a.size := by
  have hsub : (Tree.nodesAll ts).map (·.item.1) ⊆ (List.range a.size).map (Index.mk · 0) := by
    intro i hi
    obtain ⟨t, ht, rfl⟩ := List.mem_map.1 hi
    have hw := isSome_get?_iff.1 (by rw [(hu.shows t ht).1]; rfl)
    exact List.mem_map.2 ⟨t.item.1.slot, List.mem_range.2 hw.2, by rw [← hw.1]⟩
  have hle := ((hu.nodup_index h).subperm hsub).length_le
  rwa [List.length_map, List.length_map, List.length_range, Tree.length_nodesAll] at hle

/-! ## Post-order -/

/-- The traversal comes from the given visits to its end in so many steps, and lists these nodes. -/
inductive Traverses (a : Arena α) : List Visit → Nat → List (Index × Node α) → Prop
  | done {visits : List Visit} : a.postorderStep visits = none → Traverses a visits 0 []
  | pass {visits rest : List Visit} {steps : Nat} {listed : List (Index × Node α)} :
      a.postorderStep visits = some (none, rest) → Traverses a rest steps listed →
      Traverses a visits (steps + 1) listed
  | list {visits rest : List Visit} {steps : Nat} {node : Index × Node α}
      {listed : List (Index × Node α)} :
      a.postorderStep visits = some (some node, rest) → Traverses a rest steps listed →
      Traverses a visits (steps + 1) (node :: listed)

/-- Steps that are allowed beyond the end change nothing. -/
theorem Traverses.collectPostorder_eq {a : Arena α} {visits : List Visit} {steps bound : Nat}
    {listed : List (Index × Node α)} (h : a.Traverses visits steps listed) (hle : steps ≤ bound)
    (acc : List (Index × Node α)) :
    a.collectPostorder bound visits acc = listed.reverse ++ acc := by
  induction h generalizing bound acc with
  | done hstep =>
    cases bound with
    | zero => rfl
    | succ bound => rw [collectPostorder, hstep]; rfl
  | pass hstep _ ih =>
    cases bound with
    | zero => cases hle
    | succ bound =>
      rw [collectPostorder, hstep]
      exact ih (Nat.le_of_succ_le_succ hle) acc
  | list hstep _ ih =>
    cases bound with
    | zero => cases hle
    | succ bound =>
      rw [collectPostorder, hstep, List.reverse_cons, List.append_assoc]
      exact ih (Nat.le_of_succ_le_succ hle) _

theorem postorderStep_enter {a : Arena α} {i : Index} {n : Node α} (h : a.get? i = some n)
    (rest : List Visit) : a.postorderStep (⟨i, false⟩ :: rest) =
      some (none, n.replies.toList.map (Visit.mk · false) ++ ⟨i, true⟩ :: rest) := by
  simp [postorderStep, h]

theorem postorderStep_leave {a : Arena α} {i : Index} {n : Node α} (h : a.get? i = some n)
    (rest : List Visit) : a.postorderStep (⟨i, true⟩ :: rest) = some (some (i, n), rest) := by
  simp [postorderStep, h]

mutual

/-- Two steps for each node list a tree: one puts the node back behind its replies, one lists it. -/
theorem traverses_tree (a : Arena α) : ∀ t : Tree (Index × Node α),
    (∀ u ∈ t.nodes, a.Shows u) → ∀ {rest steps listed}, a.Traverses rest steps listed →
      a.Traverses (⟨t.item.1, false⟩ :: rest) (2 * t.count + steps) (t.postorder ++ listed)
  | .node (i, n) ts, h, rest, steps, listed, hrest => by
    obtain ⟨hn, hreplies⟩ : a.get? i = some n ∧ ts.map (·.item.1) = a.under (some i) :=
      h _ (Tree.self_mem_nodes _)
    have hvisits : n.replies.toList.map (Visit.mk · false) =
        ts.map fun t => ⟨t.item.1, false⟩ := by
      rw [← under_eq_of_get? hn, ← hreplies, List.map_map]
      rfl
    have hsteps : 2 * (Tree.node (i, n) ts).count + steps =
        (2 * Tree.countAll ts + (steps + 1)) + 1 := by
      rw [Tree.count_eq, Tree.replies_node]
      omega
    rw [hsteps, Tree.item_node, Tree.postorder, List.append_assoc]
    refine .pass (postorderStep_enter hn rest) ?_
    rw [hvisits]
    exact traverses_trees a ts (fun u hu => h u (Tree.mem_nodes.2 (.inr hu)))
      (.list (postorderStep_leave hn rest) hrest)

theorem traverses_trees (a : Arena α) : ∀ ts : List (Tree (Index × Node α)),
    (∀ u ∈ Tree.nodesAll ts, a.Shows u) → ∀ {rest steps listed}, a.Traverses rest steps listed →
      a.Traverses (ts.map (fun t => ⟨t.item.1, false⟩) ++ rest) (2 * Tree.countAll ts + steps)
        (Tree.postorderAll ts ++ listed)
  | [], _, rest, steps, listed, hrest => by
    rw [Tree.countAll_nil, Nat.mul_zero, Nat.zero_add]
    exact hrest
  | t :: ts, h, rest, steps, listed, hrest => by
    rw [Tree.countAll_cons, Nat.mul_add, Nat.add_assoc, Tree.postorderAll, List.append_assoc]
    exact traverses_tree a t (fun u hu => h u (List.mem_append_left _ hu))
      (traverses_trees a ts (fun u hu => h u (List.mem_append_right _ hu)) hrest)

end

theorem Unfolds.traverses {a : Arena α} {ts : List (Tree (Index × Node α))} (hu : a.Unfolds ts) :
    a.Traverses a.startVisits (2 * Tree.countAll ts) (Tree.postorderAll ts) := by
  have hstart : a.startVisits = ts.map (fun t => ⟨t.item.1, false⟩) ++ [] := by
    rw [startVisits, ← under, ← hu.roots, List.map_map, List.append_nil]
    rfl
  have hend : a.Traverses [] 0 [] := .done rfl
  have hall := traverses_trees a ts hu.shows hend
  rwa [← hstart, List.append_nil] at hall

theorem Unfolds.postorder_eq {a : Arena α} {ts : List (Tree (Index × Node α))} (hu : a.Unfolds ts)
    (h : a.Coherent) : a.postorder = Tree.postorderAll ts := by
  have hle : 2 * Tree.countAll ts ≤ 2 * a.size := Nat.mul_le_mul_left 2 (hu.countAll_le h)
  rw [postorder, hu.traverses.collectPostorder_eq hle, List.append_nil, List.reverse_reverse]

/-! ## Building the forest -/

/-- Takes out the tree built for one index, in front of those taken before. -/
def Built.take (s : List (Tree α) × Built α) (i : Index) : List (Tree α) × Built α :=
  match s.2[i]? with
  | some t => (t :: s.1, s.2.erase i)
  | none => s

theorem Built.takeAll_eq (built : Built α) (is : Array Index) :
    built.takeAll is =
      ((is.toList.foldl take ([], built)).1.reverse, (is.toList.foldl take ([], built)).2) := by
  rw [takeAll, ← Array.foldl_toList]
  rfl

theorem Built.take_some {s : List (Tree α) × Built α} {i : Index} {t : Tree α}
    (h : s.2[i]? = some t) : take s i = (t :: s.1, s.2.erase i) := by
  rw [take, h]

theorem Built.take_none {s : List (Tree α) × Built α} {i : Index} (h : s.2[i]? = none) :
    take s i = s := by
  rw [take, h]

theorem Built.getElem?_take (s : List (Tree α) × Built α) (i j : Index) :
    (take s i).2[j]? = if j = i then none else s.2[j]? := by
  cases hi : s.2[i]? with
  | none =>
    rw [take_none hi]
    split
    · next h => rw [h, hi]
    · rfl
  | some t =>
    rw [take_some hi, Std.HashMap.getElem?_erase]
    by_cases hj : j = i
    · simp [hj]
    · simp [hj, Ne.symm hj]

theorem Built.getElem?_foldl_take (is : List Index) (s : List (Tree α) × Built α) (j : Index) :
    (is.foldl take s).2[j]? = if j ∈ is then none else s.2[j]? := by
  induction is generalizing s with
  | nil => rfl
  | cons i is ih =>
    rw [List.foldl_cons, ih, getElem?_take]
    by_cases hj : j ∈ is <;> by_cases hi : j = i <;> simp [hj, hi]

/-- If each index has a tree of its own in the store, these trees are taken out in order. -/
theorem Built.foldl_take (us : List (Tree α)) (is : List Index) (s : List (Tree α) × Built α)
    (nodup : is.Nodup) (h : is.map (s.2[·]?) = us.map some) :
    (is.foldl take s).1 = us.reverse ++ s.1 := by
  induction is generalizing us s with
  | nil =>
    cases us with
    | nil => rfl
    | cons u us => cases h
  | cons i is ih =>
    cases us with
    | nil => cases h
    | cons u us =>
      obtain ⟨hu, hus⟩ := List.cons.inj h
      obtain ⟨hi, nodup⟩ := List.nodup_cons.1 nodup
      rw [List.foldl_cons, ih us _ nodup, take_some hu]
      · simp
      · rw [← hus]
        refine List.map_congr_left fun j hj => ?_
        rw [getElem?_take, if_neg fun (h : j = i) => hi (h ▸ hj)]

theorem Built.takeAll_fst {built : Built α} {is : Array Index} {us : List (Tree α)}
    (nodup : is.toList.Nodup) (h : is.toList.map (built[·]?) = us.map some) :
    (built.takeAll is).1 = us := by
  rw [takeAll_eq, foldl_take us is.toList ([], built) nodup h, List.append_nil,
    List.reverse_reverse]

theorem Built.getElem?_takeAll (built : Built α) (is : Array Index) (j : Index) :
    (built.takeAll is).2[j]? = if j ∈ is.toList then none else built[j]? := by
  rw [takeAll_eq, getElem?_foldl_take]

theorem Built.getElem?_add (built : Built α) (i j : Index) (n : Node α) :
    (built.add (i, n))[j]? =
      if j = i then some (.node n.item (built.takeAll n.replies).1)
      else if j ∈ n.replies.toList then none else built[j]? := by
  rw [add, Std.HashMap.getElem?_insert, getElem?_takeAll]
  by_cases hj : j = i
  · simp [hj]
  · simp [hj, Ne.symm hj]

/-- The tree of the items of a tree of nodes. -/
def bare (t : Tree (Index × Node α)) : Tree α :=
  t.relabel (·.2.item)

theorem bare_node (i : Index) (n : Node α) (ts : List (Tree (Index × Node α))) :
    bare (.node (i, n) ts) = .node n.item (ts.map bare) := by
  rw [bare, Tree.relabel, Tree.relabelAll_eq_map]
  rfl

theorem nodesAll_bare (ts : List (Tree (Index × Node α))) :
    Tree.nodesAll (ts.map bare) = (Tree.nodesAll ts).map bare :=
  Tree.nodesAll_relabel _ ts

theorem find?_key {β : Type v} {γ : Type w} [DecidableEq γ] {key : β → γ} {bs : List β}
    (nodup : (bs.map key).Nodup) {b : β} (hb : b ∈ bs) :
    bs.find? (fun c => key c = key b) = some b := by
  induction bs with
  | nil => cases hb
  | cons c bs ih =>
    obtain ⟨hc, nodup⟩ := List.nodup_cons.1 nodup
    rcases List.mem_cons.1 hb with rfl | hb
    · exact List.find?_cons_of_pos (by simp)
    · have hne : key c ≠ key b := fun h => hc (h ▸ List.mem_map_of_mem hb)
      rw [List.find?_cons_of_neg (by simpa using hne), ih nodup hb]

theorem find?_key_eq_none {β : Type v} {γ : Type w} [DecidableEq γ] {key : β → γ} {bs : List β}
    {k : γ} (h : k ∉ bs.map key) : bs.find? (fun c => key c = k) = none :=
  List.find?_eq_none.2 fun _ hc hk => h (decide_eq_true_iff.1 hk ▸ List.mem_map_of_mem hc)

mutual

/-- Taking a tree's nodes in post-order leaves the tree itself in the store, and nothing of what is
below it. -/
theorem getElem?_foldl_add_tree {a : Arena α} : ∀ {t : Tree (Index × Node α)},
    (∀ u ∈ t.nodes, a.Shows u) → (t.nodes.map (·.item.1)).Nodup → ∀ (built : Built α),
      (∀ u ∈ t.nodes, built[u.item.1]? = none) → ∀ j,
        (t.postorder.foldl Built.add built)[j]? =
          if j = t.item.1 then some (bare t) else built[j]?
  | .node (i, n) ts, hshows, nodup, built, fresh, j => by
    obtain ⟨hn, hreplies⟩ : a.get? i = some n ∧ ts.map (·.item.1) = a.under (some i) :=
      hshows _ (Tree.self_mem_nodes _)
    rw [under_eq_of_get? hn] at hreplies
    rw [Tree.nodes_node] at hshows nodup fresh
    rw [List.map_cons, List.nodup_cons] at nodup
    have fresh_below := fun u hu => fresh u (List.mem_cons_of_mem _ hu)
    have hbelow := getElem?_foldl_add_trees (fun u hu => hshows u (List.mem_cons_of_mem _ hu))
      nodup.2 built fresh_below
    have nodup_ts : (ts.map (·.item.1)).Nodup :=
      ((Tree.sublist_nodesAll ts).map _).nodup nodup.2
    -- when the node is added, the trees of its replies are in the store, and they are taken out
    have taken : (((Tree.postorderAll ts).foldl Built.add built).takeAll n.replies).1 =
        ts.map bare := by
      refine Built.takeAll_fst (hreplies ▸ nodup_ts) ?_
      rw [← hreplies, List.map_map, List.map_map]
      refine List.map_congr_left fun t ht => ?_
      simp only [Function.comp_apply, hbelow, find?_key nodup_ts ht, Option.map_some,
        Option.some_or]
    rw [Tree.postorder, List.foldl_append, List.foldl_cons, List.foldl_nil, Built.getElem?_add,
      taken, ← hreplies, hbelow, bare_node, Tree.item_node]
    split
    · rfl
    · split
      · next hj =>
        obtain ⟨t, ht, rfl⟩ := List.mem_map.1 hj
        exact (fresh_below t (Tree.mem_nodesAll_of_mem ht)).symm
      · next hj => rw [find?_key_eq_none hj, Option.map_none, Option.none_or]

theorem getElem?_foldl_add_trees {a : Arena α} : ∀ {ts : List (Tree (Index × Node α))},
    (∀ u ∈ Tree.nodesAll ts, a.Shows u) → ((Tree.nodesAll ts).map (·.item.1)).Nodup →
      ∀ (built : Built α), (∀ u ∈ Tree.nodesAll ts, built[u.item.1]? = none) → ∀ j,
        ((Tree.postorderAll ts).foldl Built.add built)[j]? =
          ((ts.find? fun t => t.item.1 = j).map bare).or built[j]?
  | [], _, _, built, _, j => rfl
  | t :: ts, hshows, nodup, built, fresh, j => by
    rw [Tree.nodesAll_cons, List.map_append, List.nodup_append] at nodup
    obtain ⟨nodup_t, nodup_ts, disjoint⟩ := nodup
    have ht := getElem?_foldl_add_tree (fun u hu => hshows u (List.mem_append_left _ hu)) nodup_t
      built (fun u hu => fresh u (List.mem_append_left _ hu))
    have apart : t.item.1 ∉ ts.map (·.item.1) := fun hmem =>
      disjoint _ (List.mem_map_of_mem t.self_mem_nodes) _
        (((Tree.sublist_nodesAll ts).map _).subset hmem) rfl
    -- the first tree leaves nothing in the store that a later one could take
    have fresh_ts : ∀ u ∈ Tree.nodesAll ts,
        (t.postorder.foldl Built.add built)[u.item.1]? = none := fun u hu => by
      rw [ht, if_neg, fresh u (List.mem_append_right _ hu)]
      exact (disjoint _ (List.mem_map_of_mem t.self_mem_nodes) _ (List.mem_map_of_mem hu)).symm
    rw [Tree.postorderAll, List.foldl_append, getElem?_foldl_add_trees
      (fun u hu => hshows u (List.mem_append_right _ hu)) nodup_ts _ fresh_ts, ht]
    by_cases hj : j = t.item.1
    · subst hj
      rw [find?_key_eq_none apart]
      simp
    · rw [if_neg hj, List.find?_cons_of_neg (by simpa using Ne.symm hj)]

end

/-- The forest built from an arena has the shape of its links and the items of its nodes. -/
theorem Unfolds.toForest_eq {a : Arena α} {ts : List (Tree (Index × Node α))} (hu : a.Unfolds ts)
    (h : a.Coherent) : a.toForest = ⟨ts.map bare⟩ := by
  have nodup := hu.nodup_index h
  have nodup_ts : (ts.map (·.item.1)).Nodup := ((Tree.sublist_nodesAll ts).map _).nodup nodup
  have hroots : a.roots.toList = ts.map (·.item.1) := hu.roots.symm
  rw [toForest, hu.postorder_eq h]
  congr 1
  refine Built.takeAll_fst (hroots ▸ nodup_ts) ?_
  rw [hroots, List.map_map, List.map_map]
  refine List.map_congr_left fun t ht => ?_
  simp only [Function.comp_apply]
  rw [getElem?_foldl_add_trees hu.shows nodup ∅ (fun u _ => Std.HashMap.getElem?_empty) t.item.1,
    find?_key nodup_ts ht]
  rfl

theorem Unfolds.label?_item {a : Arena α} {ts : List (Tree (Index × Node α))} (hu : a.Unfolds ts)
    {t : Tree (Index × Node α)} (ht : t ∈ Tree.nodesAll ts) :
    (a.label? t.item.1).map Prod.fst = some (bare t).item := by
  rw [label?, (hu.shows t ht).1, bare, Tree.item_relabel]
  rfl

end Arena

end Discussion
