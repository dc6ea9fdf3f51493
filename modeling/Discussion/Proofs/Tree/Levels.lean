import Mathlib.Data.List.Lex
import Mathlib.Data.List.Nodup
import Mathlib.Data.List.Sort
import Discussion.Proofs.Tree.Nodes
import Discussion.Tree.Preorder

/-!
# Levels and addresses

`Tree.levels` lists the subtrees of a tree in pre-order with their levels, by recursion on the tree.

An address is a list of numbers for each item. `Tree.Numbered` says that the address of a reply is the
address of the item above it with the number of the reply behind it, and that numbers grow from sibling
to sibling.

Results:
1. `Walk.toList_eq`: a walk visits the trees that it has before it in pre-order, and tells their levels.
2. `Tree.Numbered.pairwise_nodes`, `Tree.Numbered.pairwise_nodesAll`: pre-order is the lexicographic
   order of the addresses.
3. `eq_insertionSort_of_pairwise`: a list that is in the order of its addresses is what sorting makes of it.
-/

namespace Discussion

universe u v

variable {α : Type u} {β : Type v}

namespace Tree

mutual

/-- The subtrees of a tree in pre-order with their levels, the tree itself at the level given. -/
def levels : Nat → Tree α → List (Nat × Tree α)
  | level, node x ts => (level, node x ts) :: levelsAll (level + 1) ts

/-- The subtrees of a list of trees in pre-order with their levels. -/
def levelsAll : Nat → List (Tree α) → List (Nat × Tree α)
  | _, [] => []
  | level, t :: ts => levels level t ++ levelsAll level ts

end

theorem levels_eq (level : Nat) (t : Tree α) :
    t.levels level = (level, t) :: levelsAll (level + 1) t.replies := by
  cases t; rfl

theorem levelsAll_eq_flatMap (level : Nat) (ts : List (Tree α)) :
    levelsAll level ts = ts.flatMap (levels level) := by
  induction ts with
  | nil => rfl
  | cons t ts ih => rw [levelsAll, ih, List.flatMap_cons]

theorem mem_levelsAll {level : Nat} {ts : List (Tree α)} {v : Nat × Tree α} :
    v ∈ levelsAll level ts ↔ ∃ t ∈ ts, v ∈ t.levels level := by
  rw [levelsAll_eq_flatMap, List.mem_flatMap]

mutual

theorem map_snd_levels : ∀ (level : Nat) (t : Tree α), (t.levels level).map Prod.snd = t.nodes
  | level, node x ts => by
    rw [levels_eq, nodes_eq, List.map_cons, replies_node, map_snd_levelsAll (level + 1) ts]

theorem map_snd_levelsAll : ∀ (level : Nat) (ts : List (Tree α)),
    (levelsAll level ts).map Prod.snd = nodesAll ts
  | _, [] => rfl
  | level, t :: ts => by
    rw [levelsAll, nodesAll_cons, List.map_append, map_snd_levels level t,
      map_snd_levelsAll level ts]

end

mutual

theorem level_lt : ∀ (level : Nat) (t : Tree α), ∀ v ∈ t.levels level, v.1 < level + t.count
  | level, node x ts => by
    intro v hv
    rw [levels_eq] at hv
    rw [count_eq]
    rcases List.mem_cons.1 hv with rfl | hv
    · exact Nat.lt_add_of_pos_right (Nat.succ_pos _)
    · have hlt := level_lt_countAll (level + 1) ts v hv
      rw [replies_node]
      omega

theorem level_lt_countAll : ∀ (level : Nat) (ts : List (Tree α)),
    ∀ v ∈ levelsAll level ts, v.1 < level + countAll ts
  | _, [] => nofun
  | level, t :: ts => by
    intro v hv
    rw [countAll_cons]
    rcases List.mem_append.1 hv with hv | hv
    · have hlt := level_lt level t v hv
      omega
    · have hlt := level_lt_countAll level ts v hv
      omega

end

theorem mem_levelsAll_of_mem {level : Nat} {t : Tree α} {ts : List (Tree α)} (ht : t ∈ ts) :
    (level, t) ∈ levelsAll level ts :=
  mem_levelsAll.2 ⟨t, ht, by rw [levels_eq]; exact List.mem_cons_self⟩

theorem reply_mem_levels (t : Tree α) : ∀ level, ∀ v ∈ t.levels level, ∀ r ∈ v.2.replies,
    (v.1 + 1, r) ∈ t.levels level := by
  induction t with
  | node x ts ih =>
    intro level v hv r hr
    rw [levels_eq, replies_node] at hv ⊢
    refine List.mem_cons_of_mem _ ?_
    rcases List.mem_cons.1 hv with rfl | hv
    · exact mem_levelsAll_of_mem hr
    · obtain ⟨t, ht, hv⟩ := mem_levelsAll.1 hv
      exact mem_levelsAll.2 ⟨t, ht, ih t ht _ v hv r hr⟩

/-- A reply stands one level below the node that it replies to. -/
theorem reply_mem_levelsAll {level : Nat} {ts : List (Tree α)} {v : Nat × Tree α}
    (hv : v ∈ levelsAll level ts) {r : Tree α} (hr : r ∈ v.2.replies) :
    (v.1 + 1, r) ∈ levelsAll level ts := by
  obtain ⟨t, ht, hv⟩ := mem_levelsAll.1 hv
  exact mem_levelsAll.2 ⟨t, ht, reply_mem_levels t level v hv r hr⟩

/-- A property of levels and nodes that holds of the roots, and passes from a node to its direct replies
one level below, holds of all nodes. -/
theorem levelsAll_induction {P : Nat → Tree α → Prop} {level : Nat} {ts : List (Tree α)}
    (roots : ∀ t ∈ ts, P level t)
    (replies : ∀ l, ∀ t ∈ nodesAll ts, P l t → ∀ r ∈ t.replies, P (l + 1) r) :
    ∀ v ∈ levelsAll level ts, P v.1 v.2 := by
  have below (t : Tree α) : ∀ l, (∀ k, ∀ u ∈ t.nodes, P k u → ∀ r ∈ u.replies, P (k + 1) r) →
      P l t → ∀ v ∈ t.levels l, P v.1 v.2 := by
    induction t with
    | node x ts ih =>
      intro l step hp v hv
      rw [levels_eq] at hv
      rcases List.mem_cons.1 hv with rfl | hv
      · exact hp
      · obtain ⟨t, ht, hv⟩ := mem_levelsAll.1 hv
        have hreply := step l _ (self_mem_nodes _) hp t ht
        refine ih t ht (l + 1) (fun k u hu => ?_) hreply v hv
        exact step k u (mem_nodes.2 (.inr (mem_nodesAll.2 ⟨t, ht, hu⟩)))
  intro v hv
  obtain ⟨t, ht, hv⟩ := mem_levelsAll.1 hv
  exact below t level (fun k u hu => replies k u (mem_nodesAll.2 ⟨t, ht, hu⟩)) (roots t ht) v hv

theorem level_le_of_mem_levelsAll {level : Nat} {ts : List (Tree α)} :
    ∀ v ∈ levelsAll level ts, level ≤ v.1 :=
  levelsAll_induction (P := fun l _ => level ≤ l) (fun _ _ => Nat.le_refl _)
    fun _ _ _ hle _ _ => Nat.le_succ_of_le hle

theorem length_levels (level : Nat) (t : Tree α) : (t.levels level).length = t.count := by
  rw [← length_nodes, ← map_snd_levels level, List.length_map]

theorem length_levelsAll (level : Nat) (ts : List (Tree α)) :
    (levelsAll level ts).length = countAll ts := by
  rw [← length_nodesAll, ← map_snd_levelsAll level, List.length_map]

mutual

theorem levels_add (k : Nat) : ∀ (level : Nat) (t : Tree α),
    t.levels (k + level) = (t.levels level).map fun v => (k + v.1, v.2)
  | level, node x ts => by
    rw [levels_eq, levels_eq, List.map_cons, replies_node, Nat.add_assoc,
      levelsAll_add k (level + 1) ts]

theorem levelsAll_add (k : Nat) : ∀ (level : Nat) (ts : List (Tree α)),
    levelsAll (k + level) ts = (levelsAll level ts).map fun v => (k + v.1, v.2)
  | _, [] => rfl
  | level, t :: ts => by
    rw [levelsAll, levelsAll, List.map_append, levels_add k level t, levelsAll_add k level ts]

end

end Tree

/-! ## Walks -/

namespace Walk

theorem fold_eq (f : β → Nat → Tree α → β) (acc : β) (w : Walk α) :
    w.fold f acc =
      (w.pending.flatMap fun v => v.2.levels v.1).foldl (fun acc v => f acc v.1 v.2) acc := by
  fun_induction fold f acc w with
  | case1 acc w h =>
    obtain ⟨_ | ⟨⟨level, t⟩, rest⟩⟩ := w
    · rfl
    · cases h
  | case2 acc w level t rest h ih =>
    obtain ⟨_ | ⟨⟨level, t⟩, pending⟩⟩ := w
    · cases h
    · cases h
      rw [ih, List.flatMap_append, List.flatMap_map, ← Tree.levelsAll_eq_flatMap,
        List.flatMap_cons, Tree.levels_eq, List.cons_append, List.foldl_cons]

theorem toList_eq (w : Walk α) : w.toList = w.pending.flatMap fun v => v.2.levels v.1 := by
  rw [toList, fold_eq]
  show (List.foldl (fun acc v => v :: acc) [] _).reverse = _
  rw [List.foldl_flip_cons_eq_append', List.append_nil, List.reverse_reverse]

theorem toList_ofTrees (ts : List (Tree α)) : (ofTrees ts).toList = Tree.levelsAll 0 ts := by
  rw [toList_eq, ofTrees, List.flatMap_map, Tree.levelsAll_eq_flatMap]

end Walk

theorem Tree.toList_walk (t : Tree α) : t.walk.toList = t.levels 0 := by
  rw [walk, Walk.toList_ofTrees, levelsAll, levelsAll, List.append_nil]

theorem Forest.toList_walk (f : Forest α) : f.walk.toList = Tree.levelsAll 0 f.roots :=
  Walk.toList_ofTrees f.roots

theorem Forest.items_eq_flatten (f : Forest α) : f.items = f.flatten := by
  rw [items, toList_walk, flatten_eq, nodes, ← Tree.map_snd_levelsAll 0, List.map_map]
  rfl

theorem Forest.entries_eq (f : Forest α) :
    f.entries = (Tree.levelsAll 0 f.roots).map fun v => (v.1, v.2.item) := by
  rw [entries, walk, Walk.toList_ofTrees]

/-! ## Addresses -/

theorem lt_of_concat_prefix {path address : List Nat} {n : Nat} (h : path ++ [n] <+: address) :
    path < address := by
  obtain ⟨rest, rfl⟩ := h
  have hlt := List.Lex.append_left (· < ·) (List.Lex.nil (a := n) (l := rest)) path
  rwa [List.append_nil, List.append_cons] at hlt

theorem lt_of_fork {path address₁ address₂ : List Nat} {m n : Nat} (hlt : m < n)
    (h₁ : path ++ [m] <+: address₁) (h₂ : path ++ [n] <+: address₂) : address₁ < address₂ := by
  obtain ⟨rest₁, rfl⟩ := h₁
  obtain ⟨rest₂, rfl⟩ := h₂
  rw [List.append_assoc, List.append_assoc]
  exact List.Lex.append_left (· < ·) (.rel hlt) path

namespace Tree

/-- The address of a reply is the address above it with its number behind, and the numbers of siblings
grow. -/
structure Numbered (address : α → List Nat) (number : α → Nat) (t : Tree α) : Prop where
  reply : ∀ u ∈ t.nodes, ∀ r ∈ u.replies, address r.item = address u.item ++ [number r.item]
  siblings : ∀ u ∈ t.nodes, u.replies.Pairwise fun r s => number r.item < number s.item

namespace Numbered

variable {address : α → List Nat} {number : α → Nat}

theorem of_mem {x : α} {ts : List (Tree α)} (h : (node x ts).Numbered address number) {t : Tree α}
    (ht : t ∈ ts) : t.Numbered address number := by
  have inside : ∀ u ∈ t.nodes, u ∈ (node x ts).nodes := fun u hu =>
    mem_nodes.2 (.inr (mem_nodesAll.2 ⟨t, ht, hu⟩))
  exact ⟨fun u hu => h.reply u (inside u hu), fun u hu => h.siblings u (inside u hu)⟩

theorem isPrefix_address {t : Tree α} (h : t.Numbered address number) :
    ∀ u ∈ t.nodes, address t.item <+: address u.item := by
  induction t with
  | node x ts ih =>
    intro u hu
    rcases mem_nodes.1 hu with rfl | hu
    · exact List.prefix_rfl
    · obtain ⟨t, ht, hu⟩ := mem_nodesAll.1 hu
      have hreply := h.reply _ (self_mem_nodes _) t ht
      exact (hreply ▸ List.prefix_append _ _).trans (ih t ht (h.of_mem ht) u hu)

/-- Trees whose roots are numbered below one path come in the order of the addresses if each of them
does. -/
theorem pairwise_flatMap {path : List Nat} {ts : List (Tree α)}
    (h : ∀ t ∈ ts, t.Numbered address number)
    (roots : ∀ t ∈ ts, address t.item = path ++ [number t.item])
    (siblings : ts.Pairwise fun t u => number t.item < number u.item)
    (inside : ∀ t ∈ ts, t.nodes.Pairwise fun u v => address u.item < address v.item) :
    (nodesAll ts).Pairwise fun u v => address u.item < address v.item := by
  rw [nodesAll_eq_flatMap, List.pairwise_flatMap]
  refine ⟨inside, siblings.imp_of_mem fun {t t'} ht ht' hlt => ?_⟩
  intro u hu v hv
  have hu := (h t ht).isPrefix_address u hu
  have hv := (h t' ht').isPrefix_address v hv
  rw [roots t ht] at hu
  rw [roots t' ht'] at hv
  exact lt_of_fork hlt hu hv

theorem pairwise_nodes {t : Tree α} (h : t.Numbered address number) :
    t.nodes.Pairwise fun u v => address u.item < address v.item := by
  induction t with
  | node x ts ih =>
    have roots := h.reply _ (self_mem_nodes _)
    rw [nodes_node, List.pairwise_cons]
    constructor
    · intro u hu
      obtain ⟨t, ht, hu⟩ := mem_nodesAll.1 hu
      have hprefix := (h.of_mem ht).isPrefix_address u hu
      rw [roots t ht] at hprefix
      exact lt_of_concat_prefix hprefix
    · exact pairwise_flatMap (fun t ht => h.of_mem ht) roots (h.siblings _ (self_mem_nodes _))
        fun t ht => ih t ht (h.of_mem ht)

/-- The nodes of trees that are numbered below one path come in the order of their addresses. -/
theorem pairwise_nodesAll {path : List Nat} {ts : List (Tree α)}
    (h : ∀ t ∈ ts, t.Numbered address number)
    (roots : ∀ t ∈ ts, address t.item = path ++ [number t.item])
    (siblings : ts.Pairwise fun t u => number t.item < number u.item) :
    (nodesAll ts).Pairwise fun u v => address u.item < address v.item :=
  pairwise_flatMap h roots siblings fun t ht => (h t ht).pairwise_nodes

end Numbered

end Tree

theorem eq_insertionSort_of_pairwise {xs ys : List α} {address : α → List Nat} (h : ys.Perm xs)
    (sorted : ys.Pairwise fun x y => address x < address y) :
    ys = xs.insertionSort fun x y => address x ≤ address y := by
  let before (x y : α) : Prop := address x ≤ address y
  have : Std.Total before := ⟨fun _ _ => le_total _ _⟩
  have : IsTrans α before := ⟨fun _ _ _ => le_trans⟩
  have hperm := h.trans (List.perm_insertionSort before xs).symm
  have nodup : (ys.map address).Nodup := List.pairwise_map.2 (sorted.imp fun hlt => hlt.ne)
  refine hperm.eq_of_pairwise ?_ (sorted.imp fun hlt => hlt.le) (List.pairwise_insertionSort before xs)
  intro x y hx hy hxy hyx
  exact List.inj_on_of_nodup_map nodup hx (hperm.mem_iff.2 hy) (le_antisymm hxy hyx)

end Discussion
