import Discussion.Proofs.Tree.Nodes

/-!
# Trees grown by a rule

A rule says for an item which items reply to it. A tree follows a rule if the replies to each of its
nodes are those that the rule says, and then its root determines it: it is what the rule grows from
there.
-/

namespace Discussion.Tree

universe u

variable {α : Type u}

/-- The replies to each node are those that the rule says. -/
def Follows (rule : α → List α) (t : Tree α) : Prop :=
  ∀ u ∈ t.nodes, u.replies.map item = rule u.item

/-- The tree that a rule grows from an item, cut off below `height` levels. -/
def grow (rule : α → List α) : Nat → α → Tree α
  | 0, x => leaf x
  | height + 1, x => node x ((rule x).map (grow rule height))

theorem Follows.reply {rule : α → List α} {x : α} {ts : List (Tree α)}
    (h : (node x ts).Follows rule) {t : Tree α} (ht : t ∈ ts) : t.Follows rule :=
  fun u hu => h u (List.mem_cons_of_mem _ (mem_nodesAll.2 ⟨t, ht, hu⟩))

theorem Follows.map_item {rule : α → List α} {x : α} {ts : List (Tree α)}
    (h : (node x ts).Follows rule) : ts.map item = rule x :=
  h _ (self_mem_nodes _)

/-- A tree that follows a rule is what the rule grows from its root. -/
theorem Follows.eq_grow {rule : α → List α} {t : Tree α} (h : t.Follows rule) {height : Nat}
    (hcount : t.count ≤ height) : grow rule height t.item = t := by
  induction t generalizing height with
  | node x ts ih =>
    rw [count_eq, replies_node] at hcount
    obtain ⟨height, rfl⟩ : ∃ n, height = n + 1 := ⟨height - 1, by omega⟩
    have below : ts.map (fun t => grow rule height t.item) = ts.map fun t => t :=
      List.map_congr_left fun t ht =>
        ih t ht (h.reply ht) (Nat.le_trans (count_le_countAll ht) (by omega))
    rw [item_node, grow, ← h.map_item, List.map_map]
    exact congrArg _ (below.trans (List.map_id' ts))

theorem Follows.eq {rule : α → List α} {t u : Tree α} (ht : t.Follows rule) (hu : u.Follows rule)
    (hitem : t.item = u.item) : t = u := by
  rw [← ht.eq_grow (Nat.le_max_left t.count u.count), hitem,
    hu.eq_grow (Nat.le_max_right t.count u.count)]

theorem eq_of_follows {rule : α → List α} {ts us : List (Tree α)} (hts : ∀ t ∈ ts, t.Follows rule)
    (hus : ∀ u ∈ us, u.Follows rule) (hitems : ts.map item = us.map item) : ts = us := by
  induction ts generalizing us with
  | nil => exact (List.map_eq_nil_iff.1 hitems.symm).symm
  | cons t ts ih =>
    obtain ⟨u, us, rfl, hitem, hrest⟩ := List.map_eq_cons_iff.1 hitems.symm
    rw [(hts t List.mem_cons_self).eq (hus u List.mem_cons_self) hitem.symm,
      ih (fun v hv => hts v (List.mem_cons_of_mem _ hv))
        (fun v hv => hus v (List.mem_cons_of_mem _ hv)) hrest.symm]

end Discussion.Tree
