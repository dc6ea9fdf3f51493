import Discussion.Proofs.Threading.Permutation
import Discussion.Proofs.Tree.Measures

/-!
# Counting on the list

The measures of the forest that a list is threaded into, counted on the list itself, and so the same for
every order of the list.

Results:
1. `Threaded.ChainLength.unique`, `Threaded.ChainLength.perm`: the chain of parents of an item has one
   length, in every order of the list.
2. `Forest.Arranges.size_eq`, `Forest.Arranges.length_leaves`, `Forest.Arranges.isGreatest_depth`: size,
   leaves and depth, counted.
3. `Forest.thread_perm_cases`: in another order a list fails alike, or is threaded too.
-/

namespace Discussion

universe u v

variable {α : Type u} {ι : Type v} [Threaded α ι] [BEq ι] {xs ys : List α}

namespace Threaded

/-- Whether an item of the list replies to the identity. -/
def answered (xs : List α) (i : ι) : Bool :=
  xs.any fun x => parent? x == some i

/-- The chain of parents from an item up to the start of its discussion has so many items. -/
inductive ChainLength (xs : List α) : α → Nat → Prop
  | start {x : α} : starts xs x → ChainLength xs x 1
  | reply {x y : α} {n : Nat} : Answers xs x y → ChainLength xs y n → ChainLength xs x (n + 1)

theorem isEmpty_repliesTo (xs : List α) (i : ι) : (repliesTo xs i).isEmpty = !answered xs i := by
  unfold repliesTo answered
  induction xs with
  | nil => rfl
  | cons x xs ih =>
    rw [List.filter_cons, List.any_cons]
    cases parent? x == some i with
    | true => rfl
    | false => exact ih

theorem answered_perm (h : xs.Perm ys) : answered xs = answered ys :=
  funext fun _ => h.any_eq

theorem ChainLength.perm (h : xs.Perm ys) {x : α} {n : Nat} (hx : ChainLength xs x n) :
    ChainLength ys x n := by
  induction hx with
  | start hs => exact .start (starts_perm h ▸ hs)
  | reply hy _ ih => exact .reply (answers_perm h ▸ hy) ih

variable [LawfulBEq ι]

theorem ChainLength.unique (distinct : (xs.map id).Nodup) {x : α} {m n : Nat}
    (hm : ChainLength xs x m) (hn : ChainLength xs x n) : m = n := by
  induction hm generalizing n with
  | start hs =>
    cases hn with
    | start _ => rfl
    | reply hy _ => exact absurd hy (starts_iff.1 hs _)
  | reply hy _ ih =>
    cases hn with
    | start hs => exact absurd hy (starts_iff.1 hs _)
    | reply hz hn =>
      cases answers_unique distinct hy hz
      exact congrArg (· + 1) (ih hn)

end Threaded

open Threaded

namespace Forest

variable {f : Forest α}

theorem Arranges.countP_roots (h : f.Arranges xs) (p : α → Bool) :
    f.roots.countP (fun t => p t.item) = xs.countP fun x => p x && starts xs x := by
  have hroots : f.roots.countP (fun t => p t.item) = (f.roots.map Tree.item).countP p :=
    List.countP_map.symm
  rw [hroots, h.roots, starters, List.countP_filter]

theorem Arranges.length_roots (h : f.Arranges xs) : f.roots.length = xs.countP (starts xs) := by
  rw [← List.length_map, h.roots, starters, List.countP_eq_length_filter]

variable [LawfulBEq ι]

theorem Arranges.size_eq (h : f.Arranges xs) (distinct : (xs.map Threaded.id).Nodup)
    (grounded : ∀ x ∈ xs, Grounded xs x) : f.size = xs.length := by
  rw [Forest.size_eq, ← List.length_map, (h.items_perm distinct grounded).length_eq]

/-- The leaves are the items that nobody replies to. -/
theorem Arranges.length_leaves (h : f.Arranges xs) (distinct : (xs.map Threaded.id).Nodup)
    (grounded : ∀ x ∈ xs, Grounded xs x) :
    f.leaves.length = xs.countP fun x => !answered xs (Threaded.id x) := by
  have hleaf : ∀ t ∈ f.nodes, t.isLeaf = !answered xs (Threaded.id t.item) := by
    intro t ht
    rw [← isEmpty_repliesTo, ← h.replies t ht, List.isEmpty_map]
    rfl
  rw [leaves_eq, List.length_map, List.filter_congr hleaf, ← List.countP_eq_length_filter,
    ← (h.items_perm distinct grounded).countP_eq, List.countP_map]
  rfl

/-- A node stands on the level that the length of its chain of parents says. -/
theorem Arranges.chainLength (h : f.Arranges xs) :
    ∀ v ∈ Tree.levelsAll 0 f.roots, ChainLength xs v.2.item (v.1 + 1) := by
  refine Tree.levelsAll_induction (P := fun level t => ChainLength xs t.item (level + 1)) ?_ ?_
  · intro t ht
    exact .start (h.root_mem ht).2
  · intro level t ht hchain r hr
    exact .reply ⟨(h.item_mem t ht).1, (h.reply_mem ht hr).2⟩ hchain

/-- The depth is the length of the longest chain of parents. -/
theorem Arranges.isGreatest_depth (h : f.Arranges xs) (distinct : (xs.map Threaded.id).Nodup)
    (grounded : ∀ x ∈ xs, Grounded xs x) :
    IsGreatest (insert 0 {n | ∃ x ∈ xs, ChainLength xs x n}) f.depth := by
  -- every item stands in the forest, and its level there says how long its one chain is
  have hset : {n | ∃ x ∈ xs, ChainLength xs x n} =
      {n | ∃ v ∈ Tree.levelsAll 0 f.roots, v.1 + 1 = n} := by
    ext n
    constructor
    · rintro ⟨x, hx, hn⟩
      obtain ⟨t, ht, rfl⟩ := h.exists_node hx (grounded x hx)
      rw [nodes, ← Tree.map_snd_levelsAll 0] at ht
      obtain ⟨v, hv, rfl⟩ := List.mem_map.1 ht
      exact ⟨v, hv, (h.chainLength v hv).unique distinct hn⟩
    · rintro ⟨v, hv, rfl⟩
      have hnode : v.2 ∈ f.nodes := by
        rw [nodes, ← Tree.map_snd_levelsAll 0]
        exact List.mem_map_of_mem hv
      exact ⟨v.2.item, (h.item_mem v.2 hnode).1, h.chainLength v hv⟩
  rw [hset]
  exact f.isGreatest_depth

variable [Hashable ι]

/-- In another order a list is threaded too, or is refused for the same kind of reason. -/
theorem thread_perm_cases (h : xs.Perm ys) :
    (∃ f g : Forest α, thread xs = .ok f ∧ thread ys = .ok g) ∨
    (∃ i j, thread xs = .error (.duplicateId i) ∧ thread ys = .error (.duplicateId j)) ∨
    ∃ i j, thread xs = .error (.cycle i) ∧ thread ys = .error (.cycle j) := by
  by_cases distinct : (xs.map Threaded.id).Nodup
  · have distinct' : (ys.map Threaded.id).Nodup := (h.map _).nodup_iff.1 distinct
    by_cases grounded : ∀ x ∈ xs, Grounded xs x
    · obtain ⟨f, _, hf⟩ := thread_of_grounded distinct grounded
      obtain ⟨g, hg⟩ := thread_ok_perm h hf
      exact .inl ⟨f, g, hf, hg⟩
    · have hstranded : ∃ x ∈ xs, ¬ Grounded xs x := by simpa using grounded
      obtain ⟨x, hx, hno⟩ := hstranded
      obtain ⟨i, hi⟩ := exists_thread_eq_cycle_iff.2 ⟨distinct, x, hx, hno⟩
      obtain ⟨j, hj⟩ := exists_thread_eq_cycle_iff.2
        ⟨distinct', x, h.mem_iff.1 hx, fun hg => hno (hg.perm h.symm)⟩
      exact .inr (.inr ⟨i, j, hi, hj⟩)
  · obtain ⟨i, hi⟩ := exists_thread_eq_duplicateId_iff.2 distinct
    obtain ⟨j, hj⟩ := exists_thread_eq_duplicateId_iff.2 fun hys =>
      distinct ((h.map _).nodup_iff.2 hys)
    exact .inr (.inl ⟨i, j, hi, hj⟩)

end Forest

end Discussion
