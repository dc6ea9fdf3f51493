import Discussion.Proofs.Threading.Outcome

/-!
# The order of the list

The items of a list in another order are threaded alike. All that a forest keeps of the order is the
order among siblings: among the items that start a discussion, and among the replies to one item.

Results:
1. `filter_eq_iff_precedes`: a selection from two orders of a list is the same if no two of its items
   change places.
2. `Forest.Arranges.eq_iff`: two orders give the same forest if they have the same sibling groups.
3. `Threaded.Grounded.not_siblings`: an item and its parent are no siblings.
-/

namespace Discussion

universe u v

variable {α : Type u} {ι : Type v}

/-! ## Two orders of a list -/

/-- The first item occurs in the list before the second. -/
def Precedes (xs : List α) (x y : α) : Prop :=
  [x, y].Sublist xs

theorem Precedes.asymm {xs : List α} (nodup : xs.Nodup) {x y : α} (h : Precedes xs x y) :
    ¬ Precedes xs y x := by
  induction xs with
  | nil => cases h
  | cons z xs ih =>
    obtain ⟨hz, nodup⟩ := List.nodup_cons.1 nodup
    intro h'
    cases h with
    | cons _ h =>
      cases h' with
      | cons _ h' => exact ih nodup h h'
      | cons_cons _ _ => exact hz (h.subset (by simp))
    | cons_cons _ h =>
      cases h' with
      | cons _ h' => exact hz (h'.subset (by simp))
      | cons_cons _ _ => exact hz (h.subset (by simp))

theorem eq_of_perm_of_precedes {xs ys : List α} (nodup : xs.Nodup) (h : xs.Perm ys)
    (horder : ∀ x y, Precedes ys x y → Precedes xs x y) : xs = ys := by
  have hxs : xs.Pairwise (Precedes xs) := List.pairwise_iff_forall_sublist.2 id
  have hys : ys.Pairwise (Precedes xs) := List.pairwise_iff_forall_sublist.2 (horder _ _)
  exact h.eq_of_pairwise (fun x y _ _ hxy hyx => absurd hyx (hxy.asymm nodup)) hxs hys

theorem precedes_filter {xs : List α} {p : α → Bool} {x y : α} (hx : p x) (hy : p y) :
    Precedes (xs.filter p) x y ↔ Precedes xs x y := by
  constructor
  · intro h
    exact h.trans List.filter_sublist
  · intro h
    have hself : [x, y].filter p = [x, y] := by simp [hx, hy]
    rw [Precedes, ← hself]
    exact h.filter p

/-- The items that a test selects come in the same order if every two of them do. -/
theorem filter_eq_iff_precedes {xs ys : List α} (nodup : xs.Nodup) (h : xs.Perm ys) {p : α → Bool} :
    xs.filter p = ys.filter p ↔
      ∀ x y, p x → p y → (Precedes xs x y ↔ Precedes ys x y) := by
  constructor
  · intro heq x y hx hy
    rw [← precedes_filter hx hy, heq, precedes_filter hx hy]
  · intro horder
    refine eq_of_perm_of_precedes (nodup.filter p) (h.filter p) fun x y hxy => ?_
    have hx : p x := (List.mem_filter.1 (hxy.subset (by simp))).2
    have hy : p y := (List.mem_filter.1 (hxy.subset (by simp))).2
    rw [precedes_filter hx hy] at hxy ⊢
    exact (horder x y hx hy).2 hxy

theorem filter_swap {before after : List α} {x y : α} {p : α → Bool} (h : ¬ (p x ∧ p y)) :
    (before ++ x :: y :: after).filter p = (before ++ y :: x :: after).filter p := by
  by_cases hx : p x
  · have hy : ¬ p y := fun hy => h ⟨hx, hy⟩
    simp [hx, hy]
  · simp [List.filter_cons, hx]

/-! ## Lineage in another order -/

namespace Threaded

variable [Threaded α ι]

theorem answers_perm {xs ys : List α} (h : xs.Perm ys) : Answers xs = Answers ys := by
  funext x y
  rw [Answers, Answers, h.mem_iff]

variable [BEq ι]

theorem present_perm {xs ys : List α} (h : xs.Perm ys) : present xs = present ys :=
  funext fun _ => h.any_eq

theorem starts_perm {xs ys : List α} (h : xs.Perm ys) : starts xs = starts ys := by
  funext x
  rw [starts, starts, present_perm h]

theorem Grounded.perm {xs ys : List α} (h : xs.Perm ys) {x : α} (hx : Grounded xs x) :
    Grounded ys x := by
  induction hx with
  | start hs => exact .start (starts_perm h ▸ hs)
  | reply hy _ ih => exact .reply (answers_perm h ▸ hy) ih

/-- Both items start a discussion, or both reply to the same item of the list. -/
def Siblings (xs : List α) (x y : α) : Prop :=
  starts xs x ∧ starts xs y ∨ ∃ z, Answers xs x z ∧ Answers xs y z

variable [LawfulBEq ι]

/-- An item and its parent are no siblings: otherwise the parent would be its own parent. -/
theorem Grounded.not_siblings {xs : List α} (distinct : (xs.map id).Nodup) {x y : α}
    (hx : Grounded xs x) (hxy : Answers xs x y) : ¬ Siblings xs x y := by
  rintro (⟨hs, _⟩ | ⟨z, hxz, hyz⟩)
  · exact starts_iff.1 hs y hxy
  · obtain rfl := answers_unique distinct hxy hxz
    exact hx.not_cycle distinct y (.single hxy) (.single hyz)

end Threaded

/-! ## Threading in another order -/

namespace Forest

open Threaded

variable [Threaded α ι] [BEq ι] [LawfulBEq ι] {xs ys : List α}

/-- A forest shows the sibling groups of a list, and nothing else of its order. -/
theorem Arranges.eq_iff {f g : Forest α} (hf : f.Arranges xs) (hg : g.Arranges ys)
    (grounded : ∀ x ∈ xs, Grounded xs x) :
    f = g ↔ starters xs = starters ys ∧
      ∀ i, present xs i → repliesTo xs i = repliesTo ys i := by
  constructor
  · rintro rfl
    refine ⟨hf.roots.symm.trans hg.roots, fun i hi => ?_⟩
    obtain ⟨x, hx, rfl⟩ := present_iff.1 hi
    obtain ⟨t, ht, rfl⟩ := hf.exists_node hx (grounded x hx)
    rw [← hf.replies t ht, hg.replies t ht]
  · rintro ⟨hstarters, hreplies⟩
    refine Arranges.unique ⟨hf.roots.trans hstarters, fun t ht => ?_⟩ hg
    rw [hf.replies t ht]
    exact hreplies _ (present_iff.2 ⟨t.item, (hf.item_mem t ht).1, rfl⟩)

theorem sibling_groups_eq_iff (distinct : (xs.map Threaded.id).Nodup) (h : xs.Perm ys) :
    (starters xs = starters ys ∧ ∀ i, present xs i → repliesTo xs i = repliesTo ys i) ↔
      ∀ x y, Siblings xs x y → (Precedes xs x y ↔ Precedes ys x y) := by
  have nodup := distinct.of_map
  have hstarters : starters xs = starters ys ↔
      ∀ x y, starts xs x → starts xs y → (Precedes xs x y ↔ Precedes ys x y) := by
    rw [starters, starters, ← starts_perm h, filter_eq_iff_precedes nodup h]
  have hreplies (i : ι) : repliesTo xs i = repliesTo ys i ↔ ∀ x y, parent? x = some i →
      parent? y = some i → (Precedes xs x y ↔ Precedes ys x y) := by
    rw [repliesTo, repliesTo, filter_eq_iff_precedes nodup h]
    simp only [beq_iff_eq]
  rw [hstarters]
  simp only [hreplies]
  constructor
  · rintro ⟨hroots, hgroups⟩ x y (⟨hx, hy⟩ | ⟨z, hx, hy⟩)
    · exact hroots x y hx hy
    · exact hgroups _ (present_iff.2 ⟨z, hx.1, rfl⟩) x y hx.2 hy.2
  · intro horder
    refine ⟨fun x y hx hy => horder x y (.inl ⟨hx, hy⟩), fun i hi x y hx hy => ?_⟩
    obtain ⟨z, hz, rfl⟩ := present_iff.1 hi
    exact horder x y (.inr ⟨z, ⟨hz, hx⟩, ⟨hz, hy⟩⟩)

theorem sibling_groups_swap {before after : List α} {x y : α}
    (h : ¬ Siblings (before ++ x :: y :: after) x y) :
    starters (before ++ x :: y :: after) = starters (before ++ y :: x :: after) ∧
      ∀ i, present (before ++ x :: y :: after) i →
        repliesTo (before ++ x :: y :: after) i = repliesTo (before ++ y :: x :: after) i := by
  have hperm : (before ++ x :: y :: after).Perm (before ++ y :: x :: after) :=
    (List.Perm.swap y x after).append_left before
  refine ⟨?_, fun i hi => filter_swap ?_⟩
  · rw [starters, starters, ← starts_perm hperm]
    exact filter_swap fun hp => h (.inl hp)
  · rintro ⟨hx, hy⟩
    obtain ⟨z, hz, rfl⟩ := present_iff.1 hi
    exact h (.inr ⟨z, ⟨hz, beq_iff_eq.1 hx⟩, ⟨hz, beq_iff_eq.1 hy⟩⟩)

variable [Hashable ι]

theorem thread_ok_perm (h : xs.Perm ys) {f : Forest α} (hf : thread xs = .ok f) :
    ∃ g : Forest α, thread ys = .ok g := by
  obtain ⟨distinct, grounded, _⟩ := thread_eq_ok_iff.1 hf
  exact exists_thread_eq_ok_iff.2 ⟨(h.map _).nodup_iff.1 distinct,
    fun x hx => (grounded x (h.mem_iff.2 hx)).perm h⟩

theorem thread_ok_eq_iff {f g : Forest α} (hf : thread xs = .ok f)
    (hg : thread ys = .ok g) :
    f = g ↔ starters xs = starters ys ∧
      ∀ i, present xs i → repliesTo xs i = repliesTo ys i := by
  obtain ⟨_, grounded, hf⟩ := thread_eq_ok_iff.1 hf
  obtain ⟨_, _, hg⟩ := thread_eq_ok_iff.1 hg
  exact hf.eq_iff hg grounded

/-- In another order a list fails alike, or gives a forest too. The two forests are the same exactly if
siblings come in the same order. So it does not matter where two neighbours stand that are no siblings,
such as a reply and the item it replies to. -/
theorem thread_perm (xs ys : List α) (h : xs.Perm ys) :
    ((∃ i, thread xs = .error (.duplicateId i)) ↔ ∃ i, thread ys = .error (.duplicateId i)) ∧
    ((∃ i, thread xs = .error (.cycle i)) ↔ ∃ i, thread ys = .error (.cycle i)) ∧
    ((∃ f, thread xs = .ok f) ↔ ∃ g, thread ys = .ok g) ∧
    (∀ f g, thread xs = .ok f → thread ys = .ok g →
      (f = g ↔ starters xs = starters ys ∧
        ∀ i, present xs i → repliesTo xs i = repliesTo ys i) ∧
      (f = g ↔ ∀ x y, Siblings xs x y → (Precedes xs x y ↔ Precedes ys x y))) ∧
    (∀ before x y after, xs = before ++ x :: y :: after → ys = before ++ y :: x :: after →
      ¬ Siblings xs x y → ∀ f, thread xs = .ok f → thread ys = .ok f) ∧
    (∀ f, thread xs = .ok f → ∀ x ∈ xs, ∀ y, Answers xs x y → ¬ Siblings xs x y) := by
  have hids := (h.map Threaded.id).nodup_iff
  have hground : (∃ x ∈ xs, ¬ Grounded xs x) ↔ ∃ x ∈ ys, ¬ Grounded ys x := by
    constructor
    · rintro ⟨x, hx, hno⟩
      exact ⟨x, h.mem_iff.1 hx, fun hg => hno (hg.perm h.symm)⟩
    · rintro ⟨x, hx, hno⟩
      exact ⟨x, h.mem_iff.2 hx, fun hg => hno (hg.perm h)⟩
  refine ⟨?_, ?_, ?_, ?_, ?_, ?_⟩
  · rw [exists_thread_eq_duplicateId_iff, exists_thread_eq_duplicateId_iff, hids]
  · rw [exists_thread_eq_cycle_iff, exists_thread_eq_cycle_iff, hids, hground]
  · constructor
    · rintro ⟨f, hf⟩
      exact thread_ok_perm h hf
    · rintro ⟨g, hg⟩
      exact thread_ok_perm h.symm hg
  · intro f g hf hg
    have heq := thread_ok_eq_iff hf hg
    have distinct := (thread_eq_ok_iff.1 hf).1
    exact ⟨heq, heq.trans (sibling_groups_eq_iff distinct h)⟩
  · rintro before x y after rfl rfl hno f hf
    obtain ⟨g, hg⟩ := thread_ok_perm h hf
    rw [hg, (thread_ok_eq_iff hf hg).2 (sibling_groups_swap hno)]
  · intro f hf x hx y hxy
    obtain ⟨distinct, grounded, _⟩ := thread_eq_ok_iff.1 hf
    exact (grounded x hx).not_siblings distinct hxy

/-- A reply listed before and after the item it replies to. -/
theorem thread_perm_of_posts :
    ∃ f, thread [(⟨2, some 1, "", none⟩ : Post), ⟨1, none, "", none⟩] = .ok f ∧
      thread [(⟨1, none, "", none⟩ : Post), ⟨2, some 1, "", none⟩] = .ok f := by
  let reply : Post := ⟨2, some 1, "", none⟩
  let first : Post := ⟨1, none, "", none⟩
  have hanswers : Answers [reply, first] reply first := ⟨by decide, rfl⟩
  have hfirst : Grounded [reply, first] first := .start (by decide)
  have grounded : ∀ x ∈ [reply, first], Grounded [reply, first] x :=
    List.forall_mem_cons.2 ⟨.reply hanswers hfirst, List.forall_mem_singleton.2 hfirst⟩
  obtain ⟨f, hf⟩ := exists_thread_eq_ok_iff.2 ⟨by decide, grounded⟩
  obtain ⟨_, _, _, _, hswap, hnot⟩ :=
    thread_perm [reply, first] [first, reply] (.swap first reply [])
  refine ⟨f, hf, hswap [] reply first [] rfl rfl ?_ f hf⟩
  exact hnot f hf reply (by decide) first hanswers

end Forest

end Discussion
