import Discussion.Proofs.Threading.RoundTrip

/-!
# Two lists in one

Two lists whose items have nothing to do with each other are threaded together, in any order that keeps
each of them. Neither list notices the other: each finds its own trees in the common forest, or its own
cycles in the common error.

* `Interleaves xs ys zs`: the items of `zs` are those of `xs` and of `ys`, each list in its order.
* `Threaded.Apart xs ys`: the lists share no identity, and no item replies across them.

Results:
1. `Threaded.Apart.answers_iff`, `Threaded.Apart.grounded_iff`: lineage in the common list.
2. `Forest.Arranges.mem_rootsFrom_iff`, `Forest.Arranges.rootsFrom`: what a list finds in the common
   forest.
3. `Interleaves.firstWith_iff`: the first item of a kind is the first of the two lists' first ones.
-/

namespace Discussion

universe u v

variable {α : Type u} {ι : Type v}

/-! ## Interleavings -/

/-- The third list has the items of the other two, with the order within each of them kept. -/
inductive Interleaves : List α → List α → List α → Prop
  | nil : Interleaves [] [] []
  | left {xs ys zs : List α} (x : α) : Interleaves xs ys zs → Interleaves (x :: xs) ys (x :: zs)
  | right {xs ys zs : List α} (y : α) : Interleaves xs ys zs → Interleaves xs (y :: ys) (y :: zs)

namespace Interleaves

variable {xs ys zs : List α}

theorem symm (h : Interleaves xs ys zs) : Interleaves ys xs zs := by
  induction h with
  | nil => exact .nil
  | left x _ ih => exact .right x ih
  | right y _ ih => exact .left y ih

theorem perm (h : Interleaves xs ys zs) : zs.Perm (xs ++ ys) := by
  induction h with
  | nil => exact .nil
  | left x _ ih => exact ih.cons x
  | right y _ ih => exact (ih.cons y).trans List.perm_middle.symm

theorem mem_iff (h : Interleaves xs ys zs) {z : α} : z ∈ zs ↔ z ∈ xs ∨ z ∈ ys := by
  rw [h.perm.mem_iff, List.mem_append]

/-- What is asked of the common list, and holds of no item of the second, is asked of the first. -/
theorem filter_left (h : Interleaves xs ys zs) {p : α → Bool} (hys : ∀ y ∈ ys, ¬ p y) :
    zs.filter p = xs.filter p := by
  induction h with
  | nil => rfl
  | left x _ ih => rw [List.filter_cons, List.filter_cons, ih hys]
  | right y _ ih =>
    rw [List.filter_cons_of_neg (hys y List.mem_cons_self)]
    exact ih fun z hz => hys z (List.mem_cons_of_mem y hz)

open Threaded (FirstWith firstWith_cons exists_firstWith_iff)

variable {P : α → Prop} {z : α}

theorem firstWith (h : Interleaves xs ys zs) (hz : FirstWith P zs z) :
    FirstWith P xs z ∨ FirstWith P ys z := by
  induction h with
  | nil => exact .inl hz
  | left x _ ih =>
    rcases firstWith_cons.1 hz with hx | ⟨hx, hz⟩
    · exact .inl (firstWith_cons.2 (.inl hx))
    · exact (ih hz).imp_left fun hz => firstWith_cons.2 (.inr ⟨hx, hz⟩)
  | right y _ ih =>
    rcases firstWith_cons.1 hz with hy | ⟨hy, hz⟩
    · exact .inr (firstWith_cons.2 (.inl hy))
    · exact (ih hz).imp_right fun hz => firstWith_cons.2 (.inr ⟨hy, hz⟩)

/-- The first item with a property is the earlier one of the first items that the two lists have. -/
theorem firstWith_iff (h : Interleaves xs ys zs) :
    FirstWith P zs z ↔ FirstWith (fun w => FirstWith P xs w ∨ FirstWith P ys w) zs z := by
  have only {w : α} (hw : FirstWith P xs w ∨ FirstWith P ys w) : P w :=
    hw.elim (fun hw => hw.mem.2) fun hw => hw.mem.2
  have early {w : α} (hw : FirstWith P zs w) :
      FirstWith (fun w => FirstWith P xs w ∨ FirstWith P ys w) zs w := by
    have hfirst := h.firstWith hw
    obtain ⟨before, after, hzs, hbefore, _⟩ := hw
    exact ⟨before, after, hzs, fun y hy hfirst => hbefore y hy (only hfirst), hfirst⟩
  constructor
  · exact early
  · intro hz
    obtain ⟨w, hw⟩ := exists_firstWith_iff.2 ⟨z, hz.mem.1, only hz.mem.2⟩
    rw [hz.unique (early hw)]
    exact hw

end Interleaves

/-! ## Lists that have nothing to do with each other -/

namespace Threaded

variable [Threaded α ι]

/-- No identity is in both lists, and no item of one names an identity of the other as its parent. -/
structure Apart (xs ys : List α) : Prop where
  ids : ∀ x ∈ xs, ∀ y ∈ ys, id x ≠ id y
  up : ∀ x ∈ xs, ∀ y ∈ ys, parent? x ≠ some (id y)
  down : ∀ x ∈ xs, ∀ y ∈ ys, parent? y ≠ some (id x)

namespace Apart

variable {xs ys zs : List α} {x y : α}

theorem symm (h : Apart xs ys) : Apart ys xs where
  ids y hy x hx := (h.ids x hx y hy).symm
  up y hy x hx := h.down x hx y hy
  down y hy x hx := h.up x hx y hy

theorem answers_iff (h : Apart xs ys) (mixed : Interleaves xs ys zs) (hx : x ∈ xs) :
    Answers zs x y ↔ Answers xs x y := by
  constructor
  · rintro ⟨hy, hparent⟩
    rcases mixed.mem_iff.1 hy with hy | hy
    · exact ⟨hy, hparent⟩
    · exact absurd hparent (h.up x hx y hy)
  · rintro ⟨hy, hparent⟩
    exact ⟨mixed.mem_iff.2 (.inl hy), hparent⟩

theorem nodup_iff (h : Apart xs ys) (mixed : Interleaves xs ys zs) :
    (zs.map id).Nodup ↔ (xs.map id).Nodup ∧ (ys.map id).Nodup := by
  rw [(mixed.perm.map id).nodup_iff, List.map_append, List.nodup_append]
  constructor
  · rintro ⟨hxs, hys, _⟩
    exact ⟨hxs, hys⟩
  · rintro ⟨hxs, hys⟩
    refine ⟨hxs, hys, fun i hi j hj => ?_⟩
    obtain ⟨x, hx, rfl⟩ := List.mem_map.1 hi
    obtain ⟨y, hy, rfl⟩ := List.mem_map.1 hj
    exact h.ids x hx y hy

variable [BEq ι] [LawfulBEq ι]

theorem starts_iff (h : Apart xs ys) (mixed : Interleaves xs ys zs) (hx : x ∈ xs) :
    starts zs x ↔ starts xs x := by
  simp only [Threaded.starts_iff, h.answers_iff mixed hx]

theorem grounded_iff (h : Apart xs ys) (mixed : Interleaves xs ys zs) (hx : x ∈ xs) :
    Grounded zs x ↔ Grounded xs x := by
  constructor
  · intro hg
    induction hg with
    | start hs => exact .start ((h.starts_iff mixed hx).1 hs)
    | reply hy _ ih =>
      have hy := (h.answers_iff mixed hx).1 hy
      exact .reply hy (ih hy.1)
  · intro hg
    induction hg with
    | start hs => exact .start ((h.starts_iff mixed hx).2 hs)
    | reply hy _ ih => exact .reply ((h.answers_iff mixed hx).2 hy) (ih hy.1)

/-- All items of the common list are grounded exactly if all of both lists are. -/
theorem all_grounded_iff (h : Apart xs ys) (mixed : Interleaves xs ys zs) :
    (∀ z ∈ zs, Grounded zs z) ↔ (∀ x ∈ xs, Grounded xs x) ∧ ∀ y ∈ ys, Grounded ys y := by
  constructor
  · intro hz
    exact ⟨fun x hx => (h.grounded_iff mixed hx).1 (hz x (mixed.mem_iff.2 (.inl hx))),
      fun y hy => (h.symm.grounded_iff mixed.symm hy).1 (hz y (mixed.mem_iff.2 (.inr hy)))⟩
  · rintro ⟨hxs, hys⟩ z hz
    rcases mixed.mem_iff.1 hz with hz | hz
    · exact (h.grounded_iff mixed hz).2 (hxs z hz)
    · exact (h.symm.grounded_iff mixed.symm hz).2 (hys z hz)

/-- The identities tell which list an item is from. -/
theorem filter_present (h : Apart xs ys) (mixed : Interleaves xs ys zs) (p : α → Bool) :
    (zs.filter p).filter (fun z => present xs (id z)) = xs.filter p := by
  rw [List.filter_filter, mixed.filter_left]
  · refine List.filter_congr fun x hx => ?_
    rw [present_iff.2 ⟨x, hx, rfl⟩, Bool.true_and]
  · intro y hy hp
    obtain ⟨x, hx, hid⟩ := present_iff.1 (Bool.and_eq_true_iff.1 hp).1
    exact h.ids x hx y hy hid

theorem starters_eq (h : Apart xs ys) (mixed : Interleaves xs ys zs) :
    (starters zs).filter (fun z => present xs (id z)) = starters xs := by
  rw [starters, h.filter_present mixed, starters]
  exact List.filter_congr fun x hx => Bool.eq_iff_iff.2 (h.starts_iff mixed hx)

theorem repliesTo_eq (h : Apart xs ys) (mixed : Interleaves xs ys zs) (hx : x ∈ xs) :
    repliesTo zs (id x) = repliesTo xs (id x) := by
  refine mixed.filter_left fun y hy hp => ?_
  exact h.down x hx y hy (beq_iff_eq.1 hp)

end Apart

end Threaded

open Threaded

namespace Forest

variable [Threaded α ι] [BEq ι]

/-- The roots whose items are from the list, with their trees. -/
def rootsFrom (f : Forest α) (xs : List α) : List (Tree α) :=
  f.roots.filter fun t => present xs (Threaded.id t.item)

variable [LawfulBEq ι] {xs ys zs : List α} {f k : Forest α}

theorem Arranges.mem_rootsFrom_iff (h : k.Arranges zs) (apart : Apart xs ys)
    (mixed : Interleaves xs ys zs) {t : Tree α} :
    t ∈ k.rootsFrom xs ↔ t ∈ k.roots ∧ t.item ∈ xs := by
  rw [rootsFrom, List.mem_filter]
  refine and_congr_right fun ht => ?_
  rw [present_iff]
  constructor
  · rintro ⟨x, hx, hid⟩
    refine (mixed.mem_iff.1 (h.root_mem ht).1).resolve_right fun hy => ?_
    exact apart.ids x hx _ hy hid
  · intro hx
    exact ⟨_, hx, rfl⟩

/-- The trees that a list finds in the common forest arrange the list. -/
theorem Arranges.rootsFrom (h : k.Arranges zs) (apart : Apart xs ys) (mixed : Interleaves xs ys zs) :
    Arranges ⟨k.rootsFrom xs⟩ xs := by
  have hroots : (k.rootsFrom xs).map Tree.item = starters xs := by
    rw [← apart.starters_eq mixed, ← h.roots, List.filter_map]
    rfl
  have hnodes : Tree.nodesAll (k.rootsFrom xs) ⊆ k.nodes :=
    Tree.nodesAll_subset (List.filter_subset_self _)
  -- a reply to an item of the list is in the list too
  have hitems : ∀ t ∈ Tree.nodesAll (k.rootsFrom xs), t.item ∈ xs := by
    refine Tree.nodesAll_induction ?_ ?_
    · intro t ht
      exact ((h.mem_rootsFrom_iff apart mixed).1 ht).2
    · intro t ht hx r hr
      have hreply : r.item ∈ repliesTo zs (Threaded.id t.item) :=
        h.replies t (hnodes ht) ▸ List.mem_map_of_mem hr
      rw [apart.repliesTo_eq mixed hx] at hreply
      exact (mem_repliesTo.1 hreply).1
  refine ⟨hroots, fun t ht => ?_⟩
  rw [h.replies t (hnodes ht), apart.repliesTo_eq mixed (hitems t ht)]

variable [Hashable ι]

theorem rootsFrom_thread (apart : Apart xs ys) (mixed : Interleaves xs ys zs)
    (hk : thread zs = .ok k) (hf : thread xs = .ok f) : k.rootsFrom xs = f.roots := by
  obtain ⟨_, _, hk⟩ := thread_eq_ok_iff.1 hk
  obtain ⟨_, _, hf⟩ := thread_eq_ok_iff.1 hf
  rw [← (hk.rootsFrom apart mixed).unique hf]

/-- An item of the common list is the one that its own list reports if it is the first of that list
that is not grounded. -/
theorem thread_eq_cycle_id_iff (apart : Apart xs ys) (mixed : Interleaves xs ys zs)
    (distinct : (zs.map Threaded.id).Nodup) {z : α} (hz : z ∈ zs) :
    thread xs = .error (.cycle (Threaded.id z)) ↔ FirstWith (fun w => ¬ Grounded zs w) xs z := by
  have hiff : ∀ x ∈ xs, ¬ Grounded xs x ↔ ¬ Grounded zs x := fun x hx =>
    not_congr (apart.grounded_iff mixed hx).symm
  rw [thread_eq_cycle_iff]
  constructor
  · rintro ⟨_, x, hx, hid⟩
    rw [firstStranded_iff_firstWith] at hx
    have hmem : x ∈ zs := mixed.mem_iff.2 (.inl hx.mem.1)
    rw [← List.inj_on_of_nodup_map distinct hmem hz hid]
    exact hx.congr hiff
  · intro hx
    refine ⟨((apart.nodup_iff mixed).1 distinct).1, z, ?_, rfl⟩
    rw [firstStranded_iff_firstWith]
    exact hx.congr fun x hx => (hiff x hx).symm

/-- Two lists that have nothing to do with each other can be threaded together exactly if each can be
threaded alone, and then each finds its own forest in the common one, with the roots in their order. If
no identity occurs twice, a cycle is reported exactly if one is reported for a list alone, at the
earliest item that is reported for one of them. -/
theorem thread_interleaving (xs ys zs : List α) (apart : Apart xs ys)
    (mixed : Interleaves xs ys zs) :
    ((∃ k, thread zs = .ok k) ↔ (∃ f, thread xs = .ok f) ∧ ∃ g, thread ys = .ok g) ∧
    (∀ k f g, thread zs = .ok k → thread xs = .ok f → thread ys = .ok g →
      k.rootsFrom xs = f.roots ∧ k.rootsFrom ys = g.roots) ∧
    ((zs.map Threaded.id).Nodup → ∀ i, thread zs = .error (.cycle i) ↔
      ∃ z, FirstWith (fun w => thread xs = .error (.cycle (Threaded.id w)) ∨
        thread ys = .error (.cycle (Threaded.id w))) zs z ∧ Threaded.id z = i) := by
  refine ⟨?_, fun k f g hk hf hg => ⟨?_, ?_⟩, fun distinct i => ?_⟩
  · simp only [exists_thread_eq_ok_iff]
    rw [apart.nodup_iff mixed, apart.all_grounded_iff mixed, and_and_and_comm]
  · exact rootsFrom_thread apart mixed hk hf
  · exact rootsFrom_thread apart.symm mixed.symm hk hg
  · have hreported : ∀ z ∈ zs,
        (FirstWith (fun w => ¬ Grounded zs w) xs z ∨ FirstWith (fun w => ¬ Grounded zs w) ys z) ↔
          (thread xs = .error (.cycle (Threaded.id z)) ∨
            thread ys = .error (.cycle (Threaded.id z))) := fun z hz =>
      or_congr (thread_eq_cycle_id_iff apart mixed distinct hz).symm
        (thread_eq_cycle_id_iff apart.symm mixed.symm distinct hz).symm
    rw [thread_eq_cycle_iff, and_iff_right distinct]
    refine exists_congr fun z => and_congr_left fun _ => ?_
    rw [firstStranded_iff_firstWith, mixed.firstWith_iff]
    constructor
    · intro hz
      exact hz.congr hreported
    · intro hz
      exact hz.congr fun w hw => (hreported w hw).symm

/-- A discussion, with the first item of another one in the midst of it; and two items that reply to
themselves. -/
theorem thread_interleaving_of_posts :
    (∃ k, thread [(⟨1, none, "", none⟩ : Post), ⟨3, some 9, "", none⟩, ⟨2, some 1, "", none⟩] =
        .ok k ∧
      k.rootsFrom [⟨1, none, "", none⟩, ⟨2, some 1, "", none⟩] =
        [.node ⟨1, none, "", none⟩ [.leaf ⟨2, some 1, "", none⟩]] ∧
      k.rootsFrom [⟨3, some 9, "", none⟩] = [.leaf ⟨3, some 9, "", none⟩]) ∧
    thread [(⟨6, some 6, "", none⟩ : Post), ⟨5, some 5, "", none⟩] = .error (.cycle 6) := by
  constructor
  · let f : Forest Post := ⟨[.node ⟨1, none, "", none⟩ [.leaf ⟨2, some 1, "", none⟩]]⟩
    let g : Forest Post := ⟨[.leaf ⟨3, some 9, "", none⟩]⟩
    have hflatten : f.flatten = [⟨1, none, "", none⟩, ⟨2, some 1, "", none⟩] := flatten_eq f
    have hleaf : g.flatten = [⟨3, some 9, "", none⟩] := flatten_eq g
    have linked : f.Linked := by decide
    have linked' : g.Linked := by decide
    have hf := linked.thread_eq
    have hg := linked'.thread_eq
    rw [hflatten] at hf
    rw [hleaf] at hg
    obtain ⟨hok, hroots, _⟩ := thread_interleaving _ _ _
      ⟨by decide, by decide, by decide⟩ (.left (⟨1, none, "", none⟩ : Post)
        (.right ⟨3, some 9, "", none⟩ (.left ⟨2, some 1, "", none⟩ .nil)))
    obtain ⟨k, hk⟩ := hok.2 ⟨⟨f, hf⟩, g, hg⟩
    exact ⟨k, hk, hroots k f g hk hf hg⟩
  · let ys : List Post := [⟨6, some 6, "", none⟩]
    have hstranded : ¬ Grounded ys ⟨6, some 6, "", none⟩ :=
      (not_grounded_iff_cycle (by decide) (by decide)).2 ⟨_, .refl, .single ⟨by decide, rfl⟩⟩
    have hys : thread ys = .error (.cycle 6) :=
      thread_eq_cycle_iff.2 ⟨by decide, _, ⟨[], [], rfl, List.forall_mem_nil _, hstranded⟩, rfl⟩
    obtain ⟨_, _, hcycle⟩ := thread_interleaving _ _ _
      ⟨by decide, by decide, by decide⟩ (.right (⟨6, some 6, "", none⟩ : Post)
        (.left ⟨5, some 5, "", none⟩ .nil))
    exact (hcycle (by decide) 6).2 ⟨_, ⟨[], _, rfl, List.forall_mem_nil _, .inr hys⟩, rfl⟩

end Forest

end Discussion
