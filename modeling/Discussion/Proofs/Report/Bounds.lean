import Discussion.Proofs.Tree.Measures
import Discussion.Report

/-!
# Bounds on the numbers of a forest

The numbers of a forest are taken on separate walks, but they are not independent. Every discussion has a
leaf, every post lies on the way from a root to a leaf, and a longest chain shares no more than its end with
the other leaves.

Results:
1. `Tree.length_le_length_leafItemsAll`, `Tree.length_leafItemsAll_le`, `Tree.heightAll_le_countAll`: what is
   at most as many as what.
2. `Tree.countAll_le_heightAll_mul`: there are no more items than on as many longest chains as leaves.
3. `Tree.heightAll_add_le_countAll`: the items on a longest chain and the leaves elsewhere are all different.
4. `Forest.stats_bounds`: the bounds for the numbers of a forest of posts.
-/

namespace Discussion

universe u

variable {α : Type u}

namespace Tree

/-! ## Leaves -/

theorem leafItems_ne_nil (t : Tree α) : t.leafItems ≠ [] := by
  induction t with
  | node x ts ih =>
    cases ts with
    | nil => exact List.cons_ne_nil x []
    | cons t ts => exact List.append_ne_nil_of_left_ne_nil (ih t List.mem_cons_self) _

/-- Every tree has a leaf. -/
theorem length_le_length_leafItemsAll (ts : List (Tree α)) :
    ts.length ≤ (leafItemsAll ts).length := by
  induction ts with
  | nil => exact Nat.le_refl 0
  | cons t ts ih =>
    rw [leafItemsAll, List.length_append, List.length_cons, Nat.add_comm]
    exact Nat.add_le_add (List.length_pos_of_ne_nil t.leafItems_ne_nil) ih

theorem length_leafItems_le (t : Tree α) : t.leafItems.length ≤ t.count := by
  rw [leafItems_eq, List.length_map, ← length_nodes]
  exact List.length_filter_le _ _

theorem length_leafItemsAll_le (ts : List (Tree α)) : (leafItemsAll ts).length ≤ countAll ts := by
  rw [leafItemsAll_eq, List.length_map, ← length_nodesAll]
  exact List.length_filter_le _ _

/-! ## Chains -/

mutual

theorem height_le_count : ∀ t : Tree α, t.height ≤ t.count
  | node _ ts => Nat.succ_le_succ (heightAll_le_countAll ts)

theorem heightAll_le_countAll : ∀ ts : List (Tree α), heightAll ts ≤ countAll ts
  | [] => Nat.le_refl 0
  | t :: ts =>
    Nat.max_le.2 ⟨Nat.le_add_right_of_le (height_le_count t),
      Nat.le_add_left_of_le (heightAll_le_countAll ts)⟩

end

mutual

theorem count_le_height_mul : ∀ t : Tree α, t.count ≤ t.height * t.leafItems.length
  | node _ [] => Nat.le_refl 1
  | node x (t :: ts) => by
    -- the root is paid for by a leaf, since there is one below it
    have hleaf : 1 ≤ (leafItemsAll (t :: ts)).length :=
      Nat.le_trans (Nat.le_add_left 1 ts.length) (length_le_length_leafItemsAll (t :: ts))
    calc (node x (t :: ts)).count
        = countAll (t :: ts) + 1 := count_eq _
      _ ≤ heightAll (t :: ts) * (leafItemsAll (t :: ts)).length + (leafItemsAll (t :: ts)).length :=
        Nat.add_le_add (countAll_le_heightAll_mul (t :: ts)) hleaf
      _ = (heightAll (t :: ts) + 1) * (leafItemsAll (t :: ts)).length := (Nat.succ_mul _ _).symm

/-- Every item is on the way to a leaf, and no way is longer than the longest. -/
theorem countAll_le_heightAll_mul : ∀ ts : List (Tree α),
    countAll ts ≤ heightAll ts * (leafItemsAll ts).length
  | [] => Nat.le_refl 0
  | t :: ts => by
    have ht : t.height ≤ heightAll (t :: ts) := Nat.le_max_left _ _
    have hts : heightAll ts ≤ heightAll (t :: ts) := Nat.le_max_right _ _
    calc countAll (t :: ts)
        = t.count + countAll ts := countAll_cons t ts
      _ ≤ t.height * t.leafItems.length + heightAll ts * (leafItemsAll ts).length :=
        Nat.add_le_add (count_le_height_mul t) (countAll_le_heightAll_mul ts)
      _ ≤ heightAll (t :: ts) * t.leafItems.length + heightAll (t :: ts) * (leafItemsAll ts).length :=
        Nat.add_le_add (Nat.mul_le_mul_right _ ht) (Nat.mul_le_mul_right _ hts)
      _ = heightAll (t :: ts) * (leafItemsAll (t :: ts)).length := by
        rw [leafItemsAll, List.length_append, Nat.mul_add]

end

mutual

theorem height_add_le_count : ∀ t : Tree α, t.height + t.leafItems.length ≤ t.count + 1
  | node _ [] => Nat.le_refl 2
  | node x (t :: ts) => by
    have hbelow := heightAll_add_le_countAll (t :: ts)
    show heightAll (t :: ts) + 1 + (leafItemsAll (t :: ts)).length ≤ countAll (t :: ts) + 1 + 1
    omega

/-- The items of a longest chain, but for its leaf, are no leaves. -/
theorem heightAll_add_le_countAll : ∀ ts : List (Tree α),
    heightAll ts + (leafItemsAll ts).length ≤ countAll ts + 1
  | [] => Nat.zero_le 1
  | t :: ts => by
    rw [heightAll, leafItemsAll, List.length_append, countAll_cons]
    rcases Nat.le_total t.height (heightAll ts) with hle | hle
    · -- a longest chain is in the trees behind the first one
      have hchain := heightAll_add_le_countAll ts
      have hrest := t.length_leafItems_le
      rw [Nat.max_eq_right hle]
      omega
    · have hchain := height_add_le_count t
      have hrest := length_leafItemsAll_le ts
      rw [Nat.max_eq_left hle]
      omega

end

end Tree

namespace Forest

/-- There are no more promoted discussions than discussions, no more discussions than leaves, and no more
leaves than posts. The depth is at most the number of posts, the posts are at most the depth times the
leaves, and depth and leaves together exceed the posts by at most one. Posts, discussions, depth and leaves
are 0 for the forest without discussions, and none of them is 0 for any other one. -/
theorem stats_bounds (f : Forest Post) :
    (f.stats.promoted ≤ f.stats.threads ∧ f.stats.threads ≤ f.stats.leaves ∧
      f.stats.leaves ≤ f.stats.posts) ∧
    (f.stats.depth ≤ f.stats.posts ∧ f.stats.posts ≤ f.stats.depth * f.stats.leaves ∧
      f.stats.depth + f.stats.leaves ≤ f.stats.posts + 1) ∧
    (f.stats.posts = 0 ↔ f.isEmpty = true) ∧ (f.stats.threads = 0 ↔ f.isEmpty = true) ∧
    (f.stats.depth = 0 ↔ f.isEmpty = true) ∧ (f.stats.leaves = 0 ↔ f.isEmpty = true) := by
  have hposts : f.stats.posts = Tree.countAll f.roots := f.size_eq_countAll
  have hdepth : f.stats.depth = Tree.heightAll f.roots := f.depth_eq
  have hleaves : f.stats.leaves = (Tree.leafItemsAll f.roots).length :=
    congrArg List.length f.leaves_eq_leafItemsAll
  have hthreads : f.stats.threads = f.roots.length := rfl
  have hempty : f.isEmpty = true ↔ f.roots = [] := List.isEmpty_iff
  rw [hposts, hdepth, hleaves, hthreads, hempty]
  have hleaf := Tree.length_le_length_leafItemsAll f.roots
  have hitem := Tree.length_leafItemsAll_le f.roots
  have hways := Tree.countAll_le_heightAll_mul f.roots
  refine ⟨⟨List.countP_le_length, hleaf, hitem⟩,
    ⟨Tree.heightAll_le_countAll _, hways, Tree.heightAll_add_le_countAll _⟩, ?_⟩
  -- without roots everything is 0, and nothing else can be 0 unless the number of roots is
  have hnil : f.roots = [] → Tree.countAll f.roots = 0 ∧ Tree.heightAll f.roots = 0 ∧
      (Tree.leafItemsAll f.roots).length = 0 := by
    intro h
    rw [h]
    exact ⟨rfl, rfl, rfl⟩
  have hroots : (Tree.leafItemsAll f.roots).length = 0 → f.roots = [] := fun h =>
    List.length_eq_zero_iff.1 (Nat.eq_zero_of_le_zero (h ▸ hleaf))
  have hnone : Tree.countAll f.roots = 0 → f.roots = [] := fun h =>
    hroots (Nat.eq_zero_of_le_zero (h ▸ hitem))
  refine ⟨⟨hnone, fun h => (hnil h).1⟩, List.length_eq_zero_iff, ⟨fun h => ?_, fun h => (hnil h).2.1⟩,
    hroots, fun h => (hnil h).2.2⟩
  rw [h, Nat.zero_mul] at hways
  exact hnone (Nat.eq_zero_of_le_zero hways)

end Forest

end Discussion
