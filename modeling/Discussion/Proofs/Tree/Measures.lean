import Mathlib.Order.Bounds.Basic
import Discussion.Proofs.Tree.Levels
import Discussion.Tree.Shape

/-!
# Measures by nodes

The measures of a forest are taken on one walk. Here they are said of its nodes: how many there are,
which of them nobody replied to, and how deep the deepest one stands.

* `Tree.height`: the depth by recursion on the tree.
* `Tree.leafItems`: the leaves by recursion on the tree.

Results:
1. `Forest.size_eq`, `Forest.leaves_eq`: size and leaves are those of the list of nodes.
2. `Forest.isGreatest_depth`: the depth is one more than the greatest level, and 0 if there is none.
3. `Forest.size_eq_countAll`, `Forest.depth_eq`, `Forest.leaves_eq_leafItemsAll`: the measures by recursion
   on the trees.
-/

namespace Discussion

universe u v

variable {α : Type u} {β : Type v}

/-- Keeping the greater one at each step leaves the greatest of all. -/
theorem isGreatest_foldl_max (measure : β → Nat) (start : Nat) (bs : List β) :
    IsGreatest (insert start {n | ∃ b ∈ bs, measure b = n})
      (bs.foldl (fun m b => max m (measure b)) start) := by
  induction bs generalizing start with
  | nil =>
    constructor
    · exact .inl rfl
    · rintro n (rfl | ⟨b, hb, _⟩)
      · exact Nat.le_refl _
      · cases hb
  | cons b bs ih =>
    rw [List.foldl_cons]
    obtain ⟨hmem, hbound⟩ := ih (max start (measure b))
    constructor
    · rcases hmem with heq | ⟨c, hc, hmem⟩
      · rw [heq]
        rcases Nat.le_total start (measure b) with hle | hle
        · exact .inr ⟨b, List.mem_cons_self, (Nat.max_eq_right hle).symm⟩
        · exact .inl (Nat.max_eq_left hle)
      · exact .inr ⟨c, List.mem_cons_of_mem _ hc, hmem⟩
    · have hstart := hbound (.inl rfl)
      rintro n (rfl | ⟨c, hc, rfl⟩)
      · exact Nat.le_trans (Nat.le_max_left _ _) hstart
      · rcases List.mem_cons.1 hc with rfl | hc
        · exact Nat.le_trans (Nat.le_max_right _ _) hstart
        · exact hbound (.inr ⟨c, hc, rfl⟩)

/-! ## Heights -/

namespace Tree

mutual

/-- The number of items on the longest chain from the root of a tree down. -/
def height : Tree α → Nat
  | node _ ts => heightAll ts + 1

/-- The number of items on the longest chain down a list of trees. -/
def heightAll : List (Tree α) → Nat
  | [] => 0
  | t :: ts => max (height t) (heightAll ts)

end

mutual

theorem height_relabel (g : α → β) : ∀ t : Tree α, (t.relabel g).height = t.height
  | node x ts => by rw [relabel, relabelAll_eq_map, height, height, heightAll_relabel g ts]

theorem heightAll_relabel (g : α → β) : ∀ ts : List (Tree α),
    heightAll (ts.map (relabel g)) = heightAll ts
  | [] => rfl
  | t :: ts => by rw [List.map_cons, heightAll, heightAll, height_relabel g t, heightAll_relabel g ts]

end

mutual

/-- Looking for the deepest level of a tree finds the height below the level of its root. -/
theorem foldl_max_levels : ∀ (t : Tree α) (level start : Nat),
    (t.levels level).foldl (fun deepest v => max deepest (v.1 + 1)) start =
      max start (level + t.height)
  | node x ts, level, start => by
    rw [levels_eq, List.foldl_cons, replies_node,
      foldl_max_levelsAll ts (Nat.le_max_right start (level + 1)), height, Nat.max_assoc]
    congr 1
    omega

theorem foldl_max_levelsAll : ∀ (ts : List (Tree α)) {level start : Nat}, level ≤ start →
    (levelsAll level ts).foldl (fun deepest v => max deepest (v.1 + 1)) start =
      max start (level + heightAll ts)
  | [], level, start, hle => (Nat.max_eq_left hle).symm
  | t :: ts, level, start, hle => by
    rw [levelsAll, List.foldl_append, foldl_max_levels t,
      foldl_max_levelsAll ts (Nat.le_trans hle (Nat.le_max_left _ _)), heightAll, Nat.max_assoc,
      Nat.add_max_add_left]

end

/-! ## Leaves -/

mutual

/-- The items of a tree that nobody replied to. -/
def leafItems : Tree α → List α
  | node x [] => [x]
  | node _ (t :: ts) => leafItems t ++ leafItemsAll ts

/-- The items of a list of trees that nobody replied to. -/
def leafItemsAll : List (Tree α) → List α
  | [] => []
  | t :: ts => leafItems t ++ leafItemsAll ts

end

mutual

theorem leafItems_eq : ∀ t : Tree α, t.leafItems = (t.nodes.filter isLeaf).map item
  | node x [] => rfl
  | node _ (t :: ts) => by
    rw [leafItems, nodes_node, List.filter_cons_of_neg (by exact Bool.false_ne_true), nodesAll_cons,
      List.filter_append, List.map_append, leafItems_eq t, leafItemsAll_eq ts]

theorem leafItemsAll_eq : ∀ ts : List (Tree α),
    leafItemsAll ts = ((nodesAll ts).filter isLeaf).map item
  | [] => rfl
  | t :: ts => by
    rw [leafItemsAll, nodesAll_cons, List.filter_append, List.map_append, leafItems_eq t,
      leafItemsAll_eq ts]

end

end Tree

/-! ## Forests -/

namespace Forest

theorem size_eq (f : Forest α) : f.size = f.nodes.length := by
  rw [size, toList_walk, nodes, ← Tree.map_snd_levelsAll 0, List.length_map]

theorem size_eq_countAll (f : Forest α) : f.size = Tree.countAll f.roots := by
  rw [size_eq, nodes, Tree.length_nodesAll]

theorem leaves_eq (f : Forest α) : f.leaves = (f.nodes.filter Tree.isLeaf).map Tree.item := by
  rw [leaves, toList_walk, nodes, ← Tree.map_snd_levelsAll 0, List.filter_map, List.map_map]
  rfl

theorem leaves_eq_leafItemsAll (f : Forest α) : f.leaves = Tree.leafItemsAll f.roots :=
  f.leaves_eq.trans (Tree.leafItemsAll_eq f.roots).symm

theorem depth_eq_foldl (f : Forest α) :
    f.depth = (Tree.levelsAll 0 f.roots).foldl (fun deepest v => max deepest (v.1 + 1)) 0 := by
  rw [← toList_walk, depth, Walk.depth, Walk.fold_eq, Walk.toList_eq]

/-- The depth is the length of the longest chain: one more than the level of a node on the deepest
level. -/
theorem isGreatest_depth (f : Forest α) :
    IsGreatest (insert 0 {n | ∃ v ∈ Tree.levelsAll 0 f.roots, v.1 + 1 = n}) f.depth := by
  rw [depth_eq_foldl]
  exact isGreatest_foldl_max (fun v : Nat × Tree α => v.1 + 1) 0 _

theorem depth_eq (f : Forest α) : f.depth = Tree.heightAll f.roots := by
  rw [depth_eq_foldl, Tree.foldl_max_levelsAll f.roots (Nat.le_refl 0), Nat.zero_max, Nat.zero_add]

end Forest

namespace Tree

/-! ## Trees

A tree is measured as the forest that consists of it. -/

theorem size_eq (t : Tree α) : t.size = t.count :=
  (Forest.size_eq_countAll ⟨[t]⟩).trans (Nat.add_zero _)

theorem depth_eq (t : Tree α) : t.depth = t.height :=
  (Forest.depth_eq ⟨[t]⟩).trans (Nat.max_zero _)

end Tree

end Discussion
