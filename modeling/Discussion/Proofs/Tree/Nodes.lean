import Discussion.Tree.Walk

/-!
# The nodes of a forest

`Tree.nodes` lists the subtrees of a tree in pre-order, by recursion on the tree, and `Forest.nodes`
those of all trees of a forest. Statements about "every node" quantify over these lists.

Results:
1. `Tree.induction`, `Tree.nodesAll_induction`: a property of all trees is proved from the replies up,
   a property of all nodes of a forest from the roots down.
2. `Tree.nodesAll_perm`: the nodes are the roots and the replies to all nodes.
3. `Tree.nodup_keys`: if no two siblings have the same key and the key of a reply determines the key
   of the node above it, no two nodes have the same key.
4. `Forest.flatten_eq`: the traversal that takes the trees apart hands over the items of the nodes.
-/

namespace Discussion

universe u v w

variable {α : Type u} {β : Type v} {κ : Type w}

namespace Tree

/-- A property that holds of a tree whenever it holds of all direct replies holds of every tree. -/
@[elab_as_elim, induction_eliminator]
theorem induction {P : Tree α → Prop} (node : ∀ x ts, (∀ t ∈ ts, P t) → P (.node x ts)) :
    ∀ t, P t
  | .node x ts => node x ts fun t _ => induction node t

mutual

/-- The subtrees of a tree in pre-order, the tree itself first. -/
def nodes : Tree α → List (Tree α)
  | node x ts => node x ts :: nodesAll ts

/-- The subtrees of a list of trees in pre-order. -/
def nodesAll : List (Tree α) → List (Tree α)
  | [] => []
  | t :: ts => nodes t ++ nodesAll ts

end

@[simp] theorem nodesAll_nil : nodesAll ([] : List (Tree α)) = [] := rfl

@[simp] theorem nodesAll_cons (t : Tree α) (ts : List (Tree α)) :
    nodesAll (t :: ts) = t.nodes ++ nodesAll ts := rfl

@[simp] theorem nodes_node (x : α) (ts : List (Tree α)) :
    (node x ts).nodes = node x ts :: nodesAll ts := rfl

theorem nodes_eq (t : Tree α) : t.nodes = t :: nodesAll t.replies := by
  cases t; rfl

theorem nodesAll_eq_flatMap (ts : List (Tree α)) : nodesAll ts = ts.flatMap nodes := by
  induction ts with
  | nil => rfl
  | cons t ts ih => rw [nodesAll_cons, ih, List.flatMap_cons]

@[simp] theorem nodesAll_append (ts us : List (Tree α)) :
    nodesAll (ts ++ us) = nodesAll ts ++ nodesAll us := by
  simp [nodesAll_eq_flatMap]

theorem mem_nodesAll {u : Tree α} {ts : List (Tree α)} :
    u ∈ nodesAll ts ↔ ∃ t ∈ ts, u ∈ t.nodes := by
  rw [nodesAll_eq_flatMap, List.mem_flatMap]

theorem mem_nodes {u t : Tree α} : u ∈ t.nodes ↔ u = t ∨ u ∈ nodesAll t.replies := by
  rw [nodes_eq, List.mem_cons]

theorem self_mem_nodes (t : Tree α) : t ∈ t.nodes :=
  mem_nodes.2 (.inl rfl)

theorem mem_nodesAll_of_mem {t : Tree α} {ts : List (Tree α)} (h : t ∈ ts) : t ∈ nodesAll ts :=
  mem_nodesAll.2 ⟨t, h, t.self_mem_nodes⟩

theorem nodesAll_subset {ts us : List (Tree α)} (h : ts ⊆ us) : nodesAll ts ⊆ nodesAll us := by
  intro u hu
  obtain ⟨t, ht, hu⟩ := mem_nodesAll.1 hu
  exact mem_nodesAll.2 ⟨t, h ht, hu⟩

theorem sublist_nodesAll (ts : List (Tree α)) : ts.Sublist (nodesAll ts) := by
  induction ts with
  | nil => exact .slnil
  | cons t ts ih =>
    rw [nodesAll_cons, nodes_eq]
    exact (ih.trans (List.sublist_append_right _ _)).cons_cons t

theorem nodes_sublist_of_mem {t : Tree α} {ts : List (Tree α)} (ht : t ∈ ts) :
    t.nodes.Sublist (nodesAll ts) := by
  rw [nodesAll_eq_flatMap]
  exact List.sublist_flatten_of_mem (List.mem_map_of_mem ht)

theorem nodes_sublist_nodes {u t : Tree α} (hu : u ∈ t.nodes) : u.nodes.Sublist t.nodes := by
  induction t with
  | node x ts ih =>
    rcases mem_nodes.1 hu with rfl | hu
    · exact .refl _
    · obtain ⟨t, ht, hu⟩ := mem_nodesAll.1 hu
      exact ((ih t ht hu).trans (nodes_sublist_of_mem ht)).cons _

theorem nodes_sublist_nodesAll {u : Tree α} {ts : List (Tree α)} (hu : u ∈ nodesAll ts) :
    u.nodes.Sublist (nodesAll ts) := by
  obtain ⟨t, ht, hu⟩ := mem_nodesAll.1 hu
  exact (nodes_sublist_nodes hu).trans (nodes_sublist_of_mem ht)

/-- The direct replies to a node occur in pre-order in the order in which they were given. -/
theorem replies_sublist_nodesAll {u : Tree α} {ts : List (Tree α)} (hu : u ∈ nodesAll ts) :
    u.replies.Sublist (nodesAll ts) := by
  have hreplies : u.replies.Sublist u.nodes := by
    rw [nodes_eq]
    exact (sublist_nodesAll _).cons _
  exact hreplies.trans (nodes_sublist_nodesAll hu)

theorem mem_nodesAll_trans {v u : Tree α} {ts : List (Tree α)} (hu : u ∈ nodesAll ts)
    (hv : v ∈ u.nodes) : v ∈ nodesAll ts :=
  (nodes_sublist_nodesAll hu).subset hv

theorem reply_mem_nodesAll {r u : Tree α} {ts : List (Tree α)} (hu : u ∈ nodesAll ts)
    (hr : r ∈ u.replies) : r ∈ nodesAll ts :=
  mem_nodesAll_trans hu (mem_nodes.2 (.inr (mem_nodesAll_of_mem hr)))

/-- A property that holds of the roots, and passes from a node to its direct replies, holds of all
nodes. -/
theorem nodesAll_induction {P : Tree α → Prop} {ts : List (Tree α)} (roots : ∀ t ∈ ts, P t)
    (replies : ∀ t ∈ nodesAll ts, P t → ∀ r ∈ t.replies, P r) : ∀ t ∈ nodesAll ts, P t := by
  have below (t : Tree α) : (∀ u ∈ t.nodes, P u → ∀ r ∈ u.replies, P r) → P t →
      ∀ u ∈ t.nodes, P u := by
    induction t with
    | node x ts ih =>
      intro step hp u hu
      rcases mem_nodes.1 hu with rfl | hu
      · exact hp
      · obtain ⟨t, ht, hu⟩ := mem_nodesAll.1 hu
        have inside {v : Tree α} (hv : v ∈ t.nodes) : v ∈ (node x ts).nodes :=
          mem_nodes.2 (.inr (mem_nodesAll.2 ⟨t, ht, hv⟩))
        exact ih t ht (fun v hv => step v (inside hv)) (step _ (self_mem_nodes _) hp t ht) u hu
  intro u hu
  obtain ⟨t, ht, hu⟩ := mem_nodesAll.1 hu
  exact below t (fun v hv => replies v (mem_nodesAll.2 ⟨t, ht, hv⟩)) (roots t ht) u hu

theorem root_or_reply {ts : List (Tree α)} :
    ∀ u ∈ nodesAll ts, u ∈ ts ∨ ∃ t ∈ nodesAll ts, u ∈ t.replies :=
  nodesAll_induction (fun _ ht => .inl ht) fun t ht _ _ hr => .inr ⟨t, ht, hr⟩

mutual

theorem length_nodes : ∀ t : Tree α, t.nodes.length = t.count
  | node x ts => by
    rw [nodes_eq, count_eq, List.length_cons, replies_node, length_nodesAll ts]

theorem length_nodesAll : ∀ ts : List (Tree α), (nodesAll ts).length = countAll ts
  | [] => rfl
  | t :: ts => by
    rw [nodesAll_cons, countAll_cons, List.length_append, length_nodes t, length_nodesAll ts]

end

theorem count_le_countAll {t : Tree α} {ts : List (Tree α)} (ht : t ∈ ts) :
    t.count ≤ countAll ts := by
  induction ts with
  | nil => cases ht
  | cons u ts ih =>
    rw [countAll_cons]
    rcases List.mem_cons.1 ht with rfl | ht
    · exact Nat.le_add_right _ _
    · exact Nat.le_trans (ih ht) (Nat.le_add_left _ _)

theorem count_le_of_mem_nodes {u t : Tree α} (hu : u ∈ t.nodes) : u.count ≤ t.count := by
  induction t with
  | node x ts ih =>
    rcases mem_nodes.1 hu with rfl | hu
    · exact Nat.le_refl _
    · obtain ⟨t, ht, hu⟩ := mem_nodesAll.1 hu
      rw [count_eq (node x ts)]
      exact Nat.le_trans (ih t ht hu) (Nat.le_succ_of_le (count_le_countAll ht))

theorem count_le_of_mem_nodesAll {u : Tree α} {ts : List (Tree α)} (hu : u ∈ nodesAll ts) :
    u.count ≤ countAll ts := by
  obtain ⟨t, ht, hu⟩ := mem_nodesAll.1 hu
  exact Nat.le_trans (count_le_of_mem_nodes hu) (count_le_countAll ht)

/-! ## Roots and replies -/

mutual

theorem nodesAll_replies_perm : ∀ t : Tree α,
    (nodesAll t.replies).Perm (t.replies ++ (nodesAll t.replies).flatMap replies)
  | node _ ts => nodesAll_perm ts

/-- Every node is a root or a direct reply to a node, and is met once in that way. -/
theorem nodesAll_perm : ∀ ts : List (Tree α),
    (nodesAll ts).Perm (ts ++ (nodesAll ts).flatMap replies)
  | [] => .refl _
  | t :: ts => by
    have ht := nodesAll_replies_perm t
    have hts := nodesAll_perm ts
    rw [nodesAll_cons, List.flatMap_append, nodes_eq, List.flatMap_cons, List.cons_append,
      List.cons_append]
    refine List.Perm.cons t ((ht.append hts).trans ?_)
    exact List.perm_append_comm_assoc _ _ _

end

theorem count_flatMap_le_countP [DecidableEq κ] {p : β → Bool} {f : β → List κ} {bs : List β} {k : κ}
    (h : ∀ b ∈ bs, (f b).count k ≤ if p b then 1 else 0) :
    (bs.flatMap f).count k ≤ bs.countP p := by
  induction bs with
  | nil => exact Nat.le_refl 0
  | cons b bs ih =>
    have hb := h b List.mem_cons_self
    have hbs := ih fun c hc => h c (List.mem_cons_of_mem _ hc)
    rw [List.flatMap_cons, List.count_append, List.countP_cons, Nat.add_comm]
    exact Nat.add_le_add hbs hb

theorem count_keys [DecidableEq κ] (key : Tree α → κ) (ts : List (Tree α)) (k : κ) :
    ((nodesAll ts).map key).count k =
      (ts.map key).count k + ((nodesAll ts).flatMap fun t => t.replies.map key).count k := by
  rw [((nodesAll_perm ts).map key).count_eq, List.map_append, List.count_append, List.map_flatMap]

/-- If a reply's key tells the key of the node above it, and siblings have different keys, then all
nodes have different keys. -/
theorem nodup_keys (key : Tree α → κ) (above : κ → Option κ) {ts : List (Tree α)}
    (roots : (ts.map key).Nodup) (above_root : ∀ t ∈ ts, above (key t) = none)
    (siblings : ∀ t ∈ nodesAll ts, (t.replies.map key).Nodup)
    (above_reply : ∀ t ∈ nodesAll ts, ∀ r ∈ t.replies, above (key r) = some (key t)) :
    ((nodesAll ts).map key).Nodup := by
  classical
  have once : ∀ t ∈ nodesAll ts, ((nodesAll ts).map key).count (key t) ≤ 1 := by
    apply nodesAll_induction
    · intro t ht
      have hroot := List.nodup_iff_count.1 roots (key t)
      -- a root's key has nothing above it, so it is the key of no reply
      have hrest : ((nodesAll ts).flatMap fun u => u.replies.map key).count (key t) = 0 := by
        refine List.count_eq_zero.2 fun hk => ?_
        obtain ⟨u, hu, hk⟩ := List.mem_flatMap.1 hk
        obtain ⟨r, hr, hrt⟩ := List.mem_map.1 hk
        have := above_reply u hu r hr
        rw [hrt, above_root t ht] at this
        cases this
      rw [count_keys, hrest]
      exact hroot
    · intro t ht hp r hr
      have habove := above_reply t ht r hr
      have hroots : (ts.map key).count (key r) = 0 := by
        refine List.count_eq_zero.2 fun hk => ?_
        obtain ⟨u, hu, hur⟩ := List.mem_map.1 hk
        rw [← hur, above_root u hu] at habove
        cases habove
      -- only below nodes with the key of `t` can there be a reply with the key of `r`
      have hreplies : ((nodesAll ts).flatMap fun u => u.replies.map key).count (key r) ≤
          (nodesAll ts).countP fun u => key u = key t := by
        refine count_flatMap_le_countP fun u hu => ?_
        split
        · exact List.nodup_iff_count.1 (siblings u hu) (key r)
        · next hne =>
          refine Nat.le_of_eq (List.count_eq_zero.2 fun hk => hne ?_)
          obtain ⟨r', hr', hrr⟩ := List.mem_map.1 hk
          have := above_reply u hu r' hr'
          rw [hrr, habove] at this
          simpa using (Option.some.inj this).symm
      rw [List.count_eq_countP, List.countP_map] at hp
      rw [count_keys, hroots, Nat.zero_add]
      exact Nat.le_trans hreplies hp
  refine List.nodup_iff_count.2 fun k => ?_
  by_cases hk : k ∈ (nodesAll ts).map key
  · obtain ⟨t, ht, rfl⟩ := List.mem_map.1 hk
    exact once t ht
  · exact Nat.le_trans (Nat.le_of_eq (List.count_eq_zero.2 hk)) (Nat.zero_le 1)

/-! ## Structural map and post-order -/

mutual

/-- Applies `g` to every item, node by node. -/
def relabel (g : α → β) : Tree α → Tree β
  | node x ts => node (g x) (relabelAll g ts)

/-- Applies `g` to every item of a list of trees. -/
def relabelAll (g : α → β) : List (Tree α) → List (Tree β)
  | [] => []
  | t :: ts => relabel g t :: relabelAll g ts

end

theorem relabelAll_eq_map (g : α → β) (ts : List (Tree α)) :
    relabelAll g ts = ts.map (relabel g) := by
  induction ts with
  | nil => rfl
  | cons t ts ih => rw [relabelAll, ih, List.map_cons]

@[simp] theorem item_relabel (g : α → β) (t : Tree α) : (t.relabel g).item = g t.item := by
  cases t; rfl

@[simp] theorem replies_relabel (g : α → β) (t : Tree α) :
    (t.relabel g).replies = t.replies.map (relabel g) := by
  cases t with
  | node x ts => exact relabelAll_eq_map g ts

mutual

theorem nodes_relabel (g : α → β) : ∀ t : Tree α, (t.relabel g).nodes = t.nodes.map (relabel g)
  | node x ts => by
    rw [nodes_eq, nodes_eq, replies_relabel, replies_node, nodesAll_relabel g ts, List.map_cons]

theorem nodesAll_relabel (g : α → β) : ∀ ts : List (Tree α),
    nodesAll (ts.map (relabel g)) = (nodesAll ts).map (relabel g)
  | [] => rfl
  | t :: ts => by
    rw [List.map_cons, nodesAll_cons, nodesAll_cons, nodes_relabel g t, nodesAll_relabel g ts,
      List.map_append]

end

end Tree

namespace Flattening

theorem collect_eq (acc : List α) (s : Flattening α) :
    s.collect acc = ((Tree.nodesAll s.pending).map Tree.item).reverse ++ acc := by
  fun_induction collect acc s with
  | case1 acc s h =>
    obtain ⟨_ | ⟨⟨x, ts⟩, rest⟩⟩ := s
    · rfl
    · cases h
  | case2 acc s x rest h ih =>
    obtain ⟨_ | ⟨⟨y, ts⟩, pending⟩⟩ := s
    · cases h
    · cases h
      rw [ih]
      simp [Tree.nodes_eq]

theorem toList_eq (s : Flattening α) : s.toList = (Tree.nodesAll s.pending).map Tree.item := by
  rw [toList, collect_eq, List.append_nil, List.reverse_reverse]

end Flattening

namespace Forest

/-- The subtrees of a forest in pre-order. -/
def nodes (f : Forest α) : List (Tree α) :=
  Tree.nodesAll f.roots

theorem flatten_eq (f : Forest α) : f.flatten = f.nodes.map Tree.item :=
  Flattening.toList_eq _

end Forest

end Discussion
