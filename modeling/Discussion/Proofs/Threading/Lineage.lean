import Mathlib.Data.Fintype.Card
import Mathlib.Data.List.Nodup
import Mathlib.Data.Set.Finite.List
import Discussion.Proofs.Tree.Growth
import Discussion.Threading.Basic

/-!
# Who replies to whom

The relations among the items of a list that a forest has to show, without a word on how it is built.

* `starters` and `repliesTo` are the sibling groups of a list, in its order.
* `Grounded xs x`: the chain of parents of `x` ends at an item that starts a discussion.
* `Forest.Arranges f xs`: the roots of `f` are the starters, and below every item stand the replies
  to it.

Results:
1. `not_grounded_iff_cycle`: the items that are not grounded are those on a cycle of parents or below
   one.
2. `Forest.Arranges.item_mem`, `Forest.Arranges.exists_node`, `Forest.Arranges.nodup_items`: a forest
   that arranges a list holds its grounded items, and holds each of them once.
3. `Forest.Arranges.unique`, `Forest.Arranges.eq_grown`: there is at most one such forest, the one
   that grows from the starters.
-/

namespace Discussion

universe u v

variable {α : Type u} {ι : Type v} [Threaded α ι]

namespace Threaded

/-- The second item is in the list and is the parent of the first. -/
def Answers (xs : List α) (x y : α) : Prop :=
  y ∈ xs ∧ parent? x = some (id y)

theorem answers_unique {xs : List α} (distinct : (xs.map id).Nodup) {x y z : α}
    (hy : Answers xs x y) (hz : Answers xs x z) : y = z :=
  List.inj_on_of_nodup_map distinct hy.1 hz.1 (Option.some.inj (hy.2.symm.trans hz.2))

variable [BEq ι]

/-- Whether an item of the list has the identity. -/
def present (xs : List α) (i : ι) : Bool :=
  xs.any fun x => id x == i

/-- Whether an item starts a discussion: it names no parent, or none that is in the list. -/
def starts (xs : List α) (x : α) : Bool :=
  (parent? x).all fun i => !present xs i

/-- The items that start a discussion, in the order of the list. -/
def starters (xs : List α) : List α :=
  xs.filter (starts xs)

/-- The items that reply to an identity, in the order of the list. -/
def repliesTo (xs : List α) (i : ι) : List α :=
  xs.filter fun x => parent? x == some i

/-- The chain of parents ends, after finitely many steps, at an item that starts a discussion. -/
inductive Grounded (xs : List α) : α → Prop
  | start {x : α} : starts xs x → Grounded xs x
  | reply {x y : α} : Answers xs x y → Grounded xs y → Grounded xs x

theorem present_iff [LawfulBEq ι] {xs : List α} {i : ι} :
    present xs i ↔ ∃ x ∈ xs, id x = i := by
  simp [present]

theorem starts_iff [LawfulBEq ι] {xs : List α} {x : α} :
    starts xs x ↔ ∀ y, ¬ Answers xs x y := by
  unfold starts Answers
  cases parent? x with
  | none => simp
  | some i =>
    rw [Option.all_some, Bool.not_eq_true', ← Bool.not_eq_true, present_iff]
    constructor
    · rintro h y ⟨hy, hi⟩
      exact h ⟨y, hy, (Option.some.inj hi).symm⟩
    · rintro h ⟨y, hy, rfl⟩
      exact h y ⟨hy, rfl⟩

theorem mem_starters {xs : List α} {x : α} : x ∈ starters xs ↔ x ∈ xs ∧ starts xs x :=
  List.mem_filter

theorem mem_repliesTo [LawfulBEq ι] {xs : List α} {x : α} {i : ι} :
    x ∈ repliesTo xs i ↔ x ∈ xs ∧ parent? x = some i := by
  rw [repliesTo, List.mem_filter, beq_iff_eq]

theorem starts_or_answers [LawfulBEq ι] (xs : List α) (x : α) :
    starts xs x ∨ ∃ y, Answers xs x y := by
  by_cases h : starts xs x
  · exact .inl h
  · exact .inr (by simpa [starts_iff] using h)

/-! ## Cycles of parents -/

open Relation in
theorem Grounded.not_cycle [LawfulBEq ι] {xs : List α} (distinct : (xs.map id).Nodup) {x : α}
    (h : Grounded xs x) : ∀ y, ReflTransGen (Answers xs) x y → ¬ TransGen (Answers xs) y y := by
  induction h with
  | start hx =>
    intro y hxy hyy
    rcases ReflTransGen.cases_head hxy with rfl | ⟨z, hz, _⟩
    · obtain ⟨z, hz, _⟩ := TransGen.head'_iff.1 hyy
      exact starts_iff.1 hx z hz
    · exact starts_iff.1 hx z hz
  | @reply x p hp _ ih =>
    intro y hxy hyy
    rcases ReflTransGen.cases_head hxy with rfl | ⟨z, hz, hzy⟩
    · -- a cycle through `x` goes on to the parent of `x`, which would then lie on a cycle
      obtain ⟨z, hz, hzx⟩ := TransGen.head'_iff.1 hyy
      obtain rfl := answers_unique distinct hp hz
      exact ih p .refl (TransGen.tail' hzx hp)
    · obtain rfl := answers_unique distinct hp hz
      exact ih y hzy hyy

open Relation in
theorem grounded_of_no_cycle [LawfulBEq ι] {xs : List α} {x : α} (hx : x ∈ xs)
    (h : ∀ y, ReflTransGen (Answers xs) x y → ¬ TransGen (Answers xs) y y) : Grounded xs x := by
  let Above := {y // y ∈ xs ∧ ReflTransGen (Answers xs) x y}
  have : Finite Above := (xs.finite_toSet.subset fun y (hy : y ∈ xs ∧ _) => hy.1).to_subtype
  -- the items above `x` are finitely many, so without a cycle the relation "is above" is well-founded
  let r : Above → Above → Prop := fun y z => TransGen (Answers xs) z.1 y.1
  have : IsTrans Above r := ⟨fun _ _ _ h₁ h₂ => h₂.trans h₁⟩
  have : Std.Irrefl r := ⟨fun y hy => h y.1 y.2.2 hy⟩
  have grounded : ∀ y : Above, Grounded xs y.1 := fun y => by
    induction y using (Finite.wellFounded_of_trans_of_irrefl r).induction with
    | _ y ih =>
      rcases starts_or_answers xs y.1 with hy | ⟨z, hz⟩
      · exact .start hy
      · exact .reply hz (ih ⟨z, hz.1, y.2.2.tail hz⟩ (.single hz))
  exact grounded ⟨x, hx, .refl⟩

/-- An item is not grounded if it lies on a cycle of parents or below one. -/
theorem not_grounded_iff_cycle [LawfulBEq ι] {xs : List α} (distinct : (xs.map id).Nodup) {x : α}
    (hx : x ∈ xs) : ¬ Grounded xs x ↔
      ∃ y, Relation.ReflTransGen (Answers xs) x y ∧ Relation.TransGen (Answers xs) y y := by
  constructor
  · intro h
    by_contra hno
    exact h (grounded_of_no_cycle hx fun y hxy hyy => hno ⟨y, hxy, hyy⟩)
  · rintro ⟨y, hxy, hyy⟩ h
    exact h.not_cycle distinct y hxy hyy

/-! ## The first of its kind -/

section First

omit [Threaded α ι] [BEq ι]

variable {P Q : α → Prop} {xs : List α} {x : α}

/-- The item is the first one of the list that has the property. -/
def FirstWith (P : α → Prop) (xs : List α) (x : α) : Prop :=
  ∃ before after, xs = before ++ x :: after ∧ (∀ y ∈ before, ¬ P y) ∧ P x

theorem find?_eq_some_iff_firstWith [DecidablePred P] :
    (xs.find? fun y => P y) = some x ↔ FirstWith P xs x := by
  rw [List.find?_eq_some_iff_append, FirstWith]
  constructor
  · rintro ⟨hx, before, after, hxs, hbefore⟩
    exact ⟨before, after, hxs, fun y hy => by simpa using hbefore y hy, by simpa using hx⟩
  · rintro ⟨before, after, hxs, hbefore, hx⟩
    exact ⟨by simpa using hx, before, after, hxs, fun y hy => by simpa using hbefore y hy⟩

theorem firstWith_cons {y : α} :
    FirstWith P (x :: xs) y ↔ P x ∧ y = x ∨ ¬ P x ∧ FirstWith P xs y := by
  classical
  rw [← find?_eq_some_iff_firstWith, ← find?_eq_some_iff_firstWith, List.find?_cons]
  by_cases hx : P x
  · simp [hx, eq_comm]
  · simp [hx]

theorem FirstWith.unique {y : α} (hx : FirstWith P xs x) (hy : FirstWith P xs y) : x = y := by
  classical
  have hfind := find?_eq_some_iff_firstWith.2 hx
  rw [find?_eq_some_iff_firstWith.2 hy] at hfind
  exact (Option.some.inj hfind).symm

theorem FirstWith.mem (h : FirstWith P xs x) : x ∈ xs ∧ P x := by
  obtain ⟨before, after, rfl, _, hx⟩ := h
  exact ⟨List.mem_append_right _ List.mem_cons_self, hx⟩

theorem FirstWith.congr (h : FirstWith P xs x) (hiff : ∀ y ∈ xs, P y ↔ Q y) :
    FirstWith Q xs x := by
  obtain ⟨before, after, rfl, hbefore, hx⟩ := h
  refine ⟨before, after, rfl, fun y hy hq => ?_, ?_⟩
  · exact hbefore y hy ((hiff y (List.mem_append_left _ hy)).2 hq)
  · exact (hiff x (List.mem_append_right _ List.mem_cons_self)).1 hx

theorem exists_firstWith_iff : (∃ x, FirstWith P xs x) ↔ ∃ x ∈ xs, P x := by
  classical
  constructor
  · rintro ⟨x, hx⟩
    exact ⟨x, hx.mem⟩
  · rintro ⟨x, hx, hp⟩
    have hsome : (xs.find? fun y => P y).isSome := List.find?_isSome.2 ⟨x, hx, decide_eq_true hp⟩
    obtain ⟨y, hy⟩ := Option.isSome_iff_exists.1 hsome
    exact ⟨y, find?_eq_some_iff_firstWith.1 hy⟩

end First

/-- The item is the first one that is not grounded. -/
def FirstStranded (xs : List α) (x : α) : Prop :=
  ∃ before after, xs = before ++ x :: after ∧ (∀ y ∈ before, Grounded xs y) ∧ ¬ Grounded xs x

theorem firstStranded_iff_firstWith {xs : List α} {x : α} :
    FirstStranded xs x ↔ FirstWith (fun y => ¬ Grounded xs y) xs x := by
  simp only [FirstStranded, FirstWith, not_not]

theorem find?_eq_some_iff_firstStranded {xs : List α} [DecidablePred (Grounded xs)] {x : α} :
    (xs.find? fun y => ¬ Grounded xs y) = some x ↔ FirstStranded xs x := by
  rw [firstStranded_iff_firstWith, find?_eq_some_iff_firstWith]

theorem exists_firstStranded_iff {xs : List α} :
    (∃ x, FirstStranded xs x) ↔ ∃ x ∈ xs, ¬ Grounded xs x := by
  simp only [firstStranded_iff_firstWith]
  exact exists_firstWith_iff

end Threaded

/-! ## Forests that arrange a list -/

open Threaded

variable [BEq ι]

/-- The roots of the forest are the items that start a discussion, and below every item stand the
replies to it, each group in the order of the list. -/
structure Forest.Arranges (f : Forest α) (xs : List α) : Prop where
  roots : f.roots.map Tree.item = starters xs
  replies : ∀ t ∈ f.nodes, t.replies.map Tree.item = repliesTo xs (Threaded.id t.item)

/-- The forest that grows from the starters of a list: the replies to each item are picked out of the
whole list, level by level. -/
def Forest.grown (xs : List α) : Forest α :=
  ⟨(starters xs).map (Tree.grow (fun x => repliesTo xs (Threaded.id x)) xs.length)⟩

namespace Forest.Arranges

variable {xs : List α} {f g : Forest α}

theorem follows (h : f.Arranges xs) {t : Tree α} (ht : t ∈ f.nodes) :
    t.Follows fun x => repliesTo xs (Threaded.id x) :=
  fun u hu => h.replies u (Tree.mem_nodesAll_trans ht hu)

theorem unique (hf : f.Arranges xs) (hg : g.Arranges xs) : f = g := by
  obtain ⟨ts⟩ := f
  obtain ⟨us⟩ := g
  exact congrArg _ (Tree.eq_of_follows (fun t ht => hf.follows (Tree.mem_nodesAll_of_mem ht))
    (fun u hu => hg.follows (Tree.mem_nodesAll_of_mem hu)) (hf.roots.trans hg.roots.symm))

theorem root_mem (h : f.Arranges xs) {t : Tree α} (ht : t ∈ f.roots) :
    t.item ∈ xs ∧ starts xs t.item :=
  mem_starters.1 (h.roots ▸ List.mem_map_of_mem ht)

theorem roots_sublist (h : f.Arranges xs) : (f.roots.map Tree.item).Sublist xs := by
  rw [h.roots]
  exact List.filter_sublist

theorem replies_sublist (h : f.Arranges xs) {t : Tree α} (ht : t ∈ f.nodes) :
    (t.replies.map Tree.item).Sublist xs := by
  rw [h.replies t ht]
  exact List.filter_sublist

variable [LawfulBEq ι]

theorem reply_mem (h : f.Arranges xs) {t r : Tree α} (ht : t ∈ f.nodes) (hr : r ∈ t.replies) :
    r.item ∈ xs ∧ parent? r.item = some (Threaded.id t.item) :=
  mem_repliesTo.1 (h.replies t ht ▸ List.mem_map_of_mem hr)

theorem item_mem (h : f.Arranges xs) : ∀ t ∈ f.nodes, t.item ∈ xs ∧ Grounded xs t.item :=
  Tree.nodesAll_induction
    (fun _ ht => ⟨(h.root_mem ht).1, .start (h.root_mem ht).2⟩)
    (fun _ ht hp _ hr => ⟨(h.reply_mem ht hr).1, .reply ⟨hp.1, (h.reply_mem ht hr).2⟩ hp.2⟩)

theorem exists_node (h : f.Arranges xs) {x : α} (hx : x ∈ xs) (hground : Grounded xs x) :
    ∃ t ∈ f.nodes, t.item = x := by
  induction hground with
  | start hs =>
    obtain ⟨t, ht, hitem⟩ := List.mem_map.1 (h.roots ▸ mem_starters.2 ⟨hx, hs⟩)
    exact ⟨t, Tree.mem_nodesAll_of_mem ht, hitem⟩
  | reply hy _ ih =>
    obtain ⟨u, hu, rfl⟩ := ih hy.1
    obtain ⟨t, ht, hitem⟩ := List.mem_map.1 (h.replies u hu ▸ mem_repliesTo.2 ⟨hx, hy.2⟩)
    exact ⟨t, Tree.reply_mem_nodesAll hu ht, hitem⟩

/-- No item occurs twice in the forest: an item tells its parent. -/
theorem nodup_items (h : f.Arranges xs) (distinct : (xs.map Threaded.id).Nodup) :
    (f.nodes.map Tree.item).Nodup := by
  have nodup := distinct.of_map
  refine Tree.nodup_keys _ (fun x => xs.find? fun y => parent? x == some (Threaded.id y))
    ?_ ?_ ?_ ?_
  · exact h.roots ▸ nodup.filter _
  · intro t ht
    refine List.find?_eq_none.2 fun y hy heq => ?_
    exact starts_iff.1 (h.root_mem ht).2 y ⟨hy, beq_iff_eq.1 heq⟩
  · intro t ht
    exact h.replies t ht ▸ nodup.filter _
  · intro t ht r hr
    have hanswers : Answers xs r.item t.item := ⟨(h.item_mem t ht).1, (h.reply_mem ht hr).2⟩
    have hsome : (xs.find? fun y => parent? r.item == some (Threaded.id y)).isSome :=
      List.find?_isSome.2 ⟨t.item, hanswers.1, beq_iff_eq.2 hanswers.2⟩
    obtain ⟨y, hy⟩ := Option.isSome_iff_exists.1 hsome
    have hfound : Answers xs r.item y :=
      ⟨List.mem_of_find?_eq_some hy, by simpa using List.find?_some hy⟩
    rw [hy, answers_unique distinct hfound hanswers]

theorem items_perm (h : f.Arranges xs) (distinct : (xs.map Threaded.id).Nodup)
    (grounded : ∀ x ∈ xs, Grounded xs x) : (f.nodes.map Tree.item).Perm xs := by
  refine (List.perm_ext_iff_of_nodup (h.nodup_items distinct) distinct.of_map).2 fun x => ?_
  constructor
  · intro hx
    obtain ⟨t, ht, rfl⟩ := List.mem_map.1 hx
    exact (h.item_mem t ht).1
  · intro hx
    obtain ⟨t, ht, rfl⟩ := h.exists_node hx (grounded x hx)
    exact List.mem_map_of_mem ht

theorem count_le (h : f.Arranges xs) (distinct : (xs.map Threaded.id).Nodup) :
    Tree.countAll f.roots ≤ xs.length := by
  have hsub : f.nodes.map Tree.item ⊆ xs := fun x hx => by
    obtain ⟨t, ht, rfl⟩ := List.mem_map.1 hx
    exact (h.item_mem t ht).1
  have hle := ((h.nodup_items distinct).subperm hsub).length_le
  rwa [List.length_map, nodes, Tree.length_nodesAll] at hle

theorem grow_item (h : f.Arranges xs) (distinct : (xs.map Threaded.id).Nodup) {t : Tree α}
    (ht : t ∈ f.nodes) :
    Tree.grow (fun x => repliesTo xs (Threaded.id x)) xs.length t.item = t :=
  (h.follows ht).eq_grow (Nat.le_trans (Tree.count_le_of_mem_nodesAll ht) (h.count_le distinct))

theorem eq_grown (h : f.Arranges xs) (distinct : (xs.map Threaded.id).Nodup) :
    f = grown xs := by
  obtain ⟨ts⟩ := f
  refine congrArg _ ?_
  rw [← h.roots, List.map_map]
  calc ts = ts.map fun t => t := (List.map_id' ts).symm
    _ = _ := List.map_congr_left fun t ht =>
      (h.grow_item distinct (Tree.mem_nodesAll_of_mem ht)).symm

/-- Trees that unfold by the replies to their items make the forest. -/
theorem eq_of_unfolding (h : f.Arranges xs) {tree : α → Tree α}
    (htree : ∀ x ∈ xs, tree x = .node x ((repliesTo xs (Threaded.id x)).map tree)) :
    f = ⟨(starters xs).map tree⟩ := by
  -- the forest of these trees arranges the list, and no other forest does
  have hitem : ∀ ys, ys ⊆ xs → (ys.map tree).map Tree.item = ys := fun ys hys => by
    rw [List.map_map]
    refine (List.map_congr_left fun y hy => ?_).trans (List.map_id' ys)
    rw [Function.comp_apply, htree y (hys hy), Tree.item_node]
  have hnodes : ∀ t ∈ Tree.nodesAll ((starters xs).map tree), t.item ∈ xs ∧ t = tree t.item := by
    have below : ∀ y ∈ xs, (tree y).item ∈ xs ∧ tree y = tree (tree y).item := fun y hy => by
      rw [htree y hy, Tree.item_node]
      exact ⟨hy, (htree y hy).symm⟩
    refine Tree.nodesAll_induction (fun t ht => ?_) (fun t _ ht r hr => ?_)
    · obtain ⟨y, hy, rfl⟩ := List.mem_map.1 ht
      exact below y (mem_starters.1 hy).1
    · rw [ht.2, htree _ ht.1, Tree.replies_node] at hr
      obtain ⟨y, hy, rfl⟩ := List.mem_map.1 hr
      exact below y (mem_repliesTo.1 hy).1
  refine h.unique ⟨hitem _ (List.filter_subset_self _), fun t ht => ?_⟩
  obtain ⟨hmem, heq⟩ := hnodes t ht
  rw [heq, htree _ hmem, Tree.replies_node, Tree.item_node]
  exact hitem _ (List.filter_subset_self _)

/-- If all items are grounded, the trees grown from them unfold by the replies to their items: nothing is
cut off. -/
theorem grow_eq_node (h : f.Arranges xs) (distinct : (xs.map Threaded.id).Nodup)
    (grounded : ∀ x ∈ xs, Grounded xs x) {x : α} (hx : x ∈ xs) :
    Tree.grow (fun x => repliesTo xs (Threaded.id x)) xs.length x =
      .node x ((repliesTo xs (Threaded.id x)).map
        (Tree.grow (fun x => repliesTo xs (Threaded.id x)) xs.length)) := by
  obtain ⟨⟨y, ts⟩, ht, rfl⟩ := h.exists_node hx (grounded x hx)
  rw [h.grow_item distinct ht, ← h.replies _ ht, List.map_map]
  refine congrArg (Tree.node y) ((List.map_id' ts).symm.trans (List.map_congr_left fun r hr => ?_))
  exact (h.grow_item distinct (Tree.reply_mem_nodesAll ht hr)).symm

end Forest.Arranges

end Discussion
