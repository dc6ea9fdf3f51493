import Discussion.Proofs.Threading.RoundTrip

/-!
# Missing items

Any items are left out of a list that can be threaded. The rest can be threaded too: an item keeps its
parent as long as the parent is there, and starts a discussion otherwise.

Results:
1. `Threaded.starts_sublist_iff`, `Threaded.Grounded.sublist`: lineage in the shorter list.
2. `Forest.Arranges.replies_iff`, `Forest.Arranges.mem_roots_iff`: where the items of a list stand in the
   forest.
-/

namespace Discussion

universe u v

variable {α : Type u} {ι : Type v} [Threaded α ι]

namespace Threaded

variable {xs ys : List α}

theorem answers_sublist_iff (h : ys.Sublist xs) {x y : α} :
    Answers ys x y ↔ Answers xs x y ∧ y ∈ ys := by
  constructor
  · rintro ⟨hy, hparent⟩
    exact ⟨⟨h.subset hy, hparent⟩, hy⟩
  · rintro ⟨⟨_, hparent⟩, hy⟩
    exact ⟨hy, hparent⟩

variable [BEq ι] [LawfulBEq ι]

/-- In the shorter list an item starts a discussion if it did so before, or if its parent is missing. -/
theorem starts_sublist_iff (distinct : (xs.map id).Nodup) (h : ys.Sublist xs) {x : α} :
    starts ys x ↔ starts xs x ∨ ∃ y, Answers xs x y ∧ y ∉ ys := by
  rw [starts_iff]
  constructor
  · intro hno
    rcases starts_or_answers xs x with hs | ⟨y, hy⟩
    · exact .inl hs
    · exact .inr ⟨y, hy, fun hmem => hno y ((answers_sublist_iff h).2 ⟨hy, hmem⟩)⟩
  · rintro (hs | ⟨y, hy, hmissing⟩) z hz
    · exact starts_iff.1 hs z ((answers_sublist_iff h).1 hz).1
    · obtain ⟨hz, hmem⟩ := (answers_sublist_iff h).1 hz
      rw [answers_unique distinct hz hy] at hmem
      exact hmissing hmem

/-- Leaving items out closes no cycle: the chain of parents ends where the first item is missing. -/
theorem Grounded.sublist (distinct : (xs.map id).Nodup) (h : ys.Sublist xs) {x : α}
    (hx : Grounded xs x) : Grounded ys x := by
  induction hx with
  | start hs => exact .start ((starts_sublist_iff distinct h).2 (.inl hs))
  | @reply x y hy _ ih =>
    by_cases hmem : y ∈ ys
    · exact .reply ((answers_sublist_iff h).2 ⟨hy, hmem⟩) ih
    · exact .start ((starts_sublist_iff distinct h).2 (.inr ⟨y, hy, hmem⟩))

end Threaded

open Threaded

namespace Forest

/-- The first item stands in the forest directly below the second. -/
def Replies (f : Forest α) (x y : α) : Prop :=
  ∃ t ∈ f.nodes, t.item = y ∧ x ∈ t.replies.map Tree.item

variable [BEq ι] {xs ys : List α} {f : Forest α}

theorem Arranges.mem_roots_iff (h : f.Arranges xs) {x : α} :
    x ∈ f.roots.map Tree.item ↔ x ∈ xs ∧ starts xs x := by
  rw [h.roots, mem_starters]

variable [LawfulBEq ι]

theorem Arranges.replies_iff (h : f.Arranges xs) (grounded : ∀ x ∈ xs, Grounded xs x) {x y : α} :
    f.Replies x y ↔ x ∈ xs ∧ Answers xs x y := by
  constructor
  · rintro ⟨t, ht, rfl, hx⟩
    rw [h.replies t ht, mem_repliesTo] at hx
    exact ⟨hx.1, (h.item_mem t ht).1, hx.2⟩
  · rintro ⟨hx, hy⟩
    obtain ⟨t, ht, rfl⟩ := h.exists_node hy.1 (grounded y hy.1)
    refine ⟨t, ht, rfl, ?_⟩
    rw [h.replies t ht, mem_repliesTo]
    exact ⟨hx, hy.2⟩

variable [Hashable ι]

/-- What is left of a list that can be threaded can be threaded. An item that is left stands below its
parent if that is left too; it is a root if it was one, or if its parent is missing. Roots and siblings
come in the order of the shorter list, and no item of it is lost. -/
theorem thread_sublist (xs ys : List α) (f : Forest α) (h : ys.Sublist xs) (hf : thread xs = .ok f) :
    ∃ g, thread ys = .ok g ∧
      (∀ x ∈ ys, ∀ y, g.Replies x y ↔ f.Replies x y ∧ y ∈ ys) ∧
      (∀ x ∈ ys, x ∈ g.roots.map Tree.item ↔
        x ∈ f.roots.map Tree.item ∨ ∃ y, f.Replies x y ∧ y ∉ ys) ∧
      (g.roots.map Tree.item).Sublist ys ∧
      (∀ t ∈ g.nodes, (t.replies.map Tree.item).Sublist ys) ∧
      g.flatten.Perm ys := by
  obtain ⟨distinct, grounded, hf⟩ := thread_eq_ok_iff.1 hf
  have grounded' : ∀ x ∈ ys, Grounded ys x := fun x hx =>
    (grounded x (h.subset hx)).sublist distinct h
  obtain ⟨g, hg, hthread⟩ := thread_of_grounded ((h.map _).nodup distinct) grounded'
  refine ⟨g, hthread, ?_, ?_, hg.roots_sublist, fun t ht => hg.replies_sublist ht,
    flatten_perm hthread⟩
  · intro x hx y
    rw [hg.replies_iff grounded', hf.replies_iff grounded, answers_sublist_iff h]
    simp only [hx, h.subset hx, true_and]
  · intro x hx
    rw [hg.mem_roots_iff, hf.mem_roots_iff, starts_sublist_iff distinct h]
    simp only [hf.replies_iff grounded, hx, h.subset hx, true_and]

/-- Post 2 is missing, so that post 3 starts a discussion, and post 4 still replies to post 3. -/
theorem thread_sublist_of_posts :
    ∃ g, thread [(⟨1, none, "", none⟩ : Post), ⟨3, some 2, "", none⟩, ⟨4, some 3, "", none⟩] = .ok g ∧
      ⟨3, some 2, "", none⟩ ∈ g.roots.map Tree.item ∧
      g.Replies ⟨4, some 3, "", none⟩ ⟨3, some 2, "", none⟩ := by
  let third : Tree Post := .node ⟨3, some 2, "", none⟩ [.leaf ⟨4, some 3, "", none⟩]
  let second : Tree Post := .node ⟨2, some 1, "", none⟩ [third]
  let f : Forest Post := ⟨[.node ⟨1, none, "", none⟩ [second]]⟩
  have hflatten : f.flatten = [⟨1, none, "", none⟩, ⟨2, some 1, "", none⟩, ⟨3, some 2, "", none⟩,
    ⟨4, some 3, "", none⟩] := flatten_eq f
  have linked : f.Linked := by decide
  have hf := linked.thread_eq
  rw [hflatten] at hf
  obtain ⟨g, hg, hreplies, hroots, _⟩ := thread_sublist _
    [(⟨1, none, "", none⟩ : Post), ⟨3, some 2, "", none⟩, ⟨4, some 3, "", none⟩] f (by decide) hf
  have hsecond : second ∈ f.nodes := List.mem_cons_of_mem _ List.mem_cons_self
  have hthird : third ∈ f.nodes := List.mem_cons_of_mem _ (List.mem_cons_of_mem _ List.mem_cons_self)
  refine ⟨g, hg, (hroots _ (by decide)).2 (.inr ⟨second.item, ⟨second, hsecond, rfl, ?_⟩, ?_⟩),
    (hreplies _ (by decide) _).2 ⟨⟨third, hthird, rfl, ?_⟩, by decide⟩⟩
  · exact List.mem_singleton_self third.item
  · decide
  · exact List.mem_singleton_self _

end Forest

end Discussion
