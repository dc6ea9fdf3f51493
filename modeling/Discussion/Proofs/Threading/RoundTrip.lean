import Discussion.Proofs.Threading.Outcome

/-!
# Threading a listing

A forest whose items name the items above them is listed in pre-order and threaded again. Pre-order
keeps the order of the roots and of the replies to every item, so the forest comes back.

Results:
1. `Forest.Linked.arranges`: such a forest arranges its own listing.
2. `Forest.linked_of_thread`: what threading returns is such a forest.
-/

namespace Discussion

universe u v

open Threaded

variable {α : Type u} {ι : Type v} [Threaded α ι]

namespace Forest

/-- No identity occurs twice, every reply names the item above it, and the roots name nothing that is
in the forest. -/
structure Linked (f : Forest α) : Prop where
  distinct : (f.flatten.map Threaded.id).Nodup
  roots : ∀ t ∈ f.roots, ∀ i ∈ parent? t.item, i ∉ f.flatten.map Threaded.id
  replies : ∀ t ∈ f.nodes, ∀ r ∈ t.replies, parent? r.item = some (Threaded.id t.item)

theorem item_mem_flatten {f : Forest α} {t : Tree α} (ht : t ∈ f.nodes) : t.item ∈ f.flatten :=
  flatten_eq f ▸ List.mem_map_of_mem ht

theorem id_mem_flatten {f : Forest α} {t : Tree α} (ht : t ∈ f.nodes) :
    Threaded.id t.item ∈ f.flatten.map Threaded.id :=
  List.mem_map_of_mem (item_mem_flatten ht)

theorem exists_node_of_mem_flatten {f : Forest α} {x : α} (hx : x ∈ f.flatten) :
    ∃ t ∈ f.nodes, t.item = x :=
  List.mem_map.1 (flatten_eq f ▸ hx)

/-- A selection from a list without repetitions is what a test selects if it has the same elements. -/
theorem eq_filter_of_sublist {xs ys : List α} (nodup : xs.Nodup) (hsub : ys.Sublist xs)
    {p : α → Bool} (hp : ∀ x ∈ xs, p x ↔ x ∈ ys) : ys = xs.filter p := by
  have hall : ys.filter p = ys :=
    List.filter_eq_self.2 fun y hy => (hp y (hsub.subset hy)).2 hy
  have hle : (xs.filter p).Subperm ys := (nodup.filter p).subperm fun x hx =>
    (hp x (List.mem_filter.1 hx).1).1 (List.mem_filter.1 hx).2
  exact (hall ▸ hsub.filter p).eq_of_length_le hle.length_le

theorem linked_iff {f : Forest α} : f.Linked ↔
    ((f.nodes.map Tree.item).map Threaded.id).Nodup ∧
    (∀ t ∈ f.roots, ∀ i ∈ parent? t.item, i ∉ (f.nodes.map Tree.item).map Threaded.id) ∧
    ∀ t ∈ f.nodes, ∀ r ∈ t.replies, parent? r.item = some (Threaded.id t.item) := by
  rw [← flatten_eq]
  constructor
  · rintro ⟨distinct, hroots, hreplies⟩
    exact ⟨distinct, hroots, hreplies⟩
  · rintro ⟨distinct, hroots, hreplies⟩
    exact ⟨distinct, hroots, hreplies⟩

instance [DecidableEq ι] (f : Forest α) : Decidable f.Linked :=
  decidable_of_iff _ linked_iff.symm

namespace Linked

variable {f : Forest α}

theorem node_unique (h : f.Linked) {t u : Tree α} (ht : t ∈ f.nodes) (hu : u ∈ f.nodes)
    (hid : Threaded.id t.item = Threaded.id u.item) : t = u := by
  have distinct : (f.nodes.map fun t => Threaded.id t.item).Nodup := by
    have := h.distinct
    rwa [flatten_eq, List.map_map] at this
  exact List.inj_on_of_nodup_map distinct ht hu hid

theorem parent_iff_reply (h : f.Linked) {t r : Tree α} (ht : t ∈ f.nodes) (hr : r ∈ f.nodes) :
    parent? r.item = some (Threaded.id t.item) ↔ r ∈ t.replies := by
  constructor
  · -- the item above `r` has the identity of `t`, so it is `t`
    intro hparent
    rcases Tree.root_or_reply r hr with hroot | ⟨u, hu, hru⟩
    · exact absurd (id_mem_flatten ht) (h.roots r hroot _ hparent)
    · have hid := (h.replies u hu r hru).symm.trans hparent
      exact h.node_unique hu ht (Option.some.inj hid) ▸ hru
  · exact h.replies t ht r

/-- A selection of the nodes, in pre-order, gives the selection of their items from the listing. -/
theorem map_item_eq_filter (h : f.Linked) {ts : List (Tree α)} (hsub : ts.Sublist f.nodes)
    {p : α → Bool} (hp : ∀ t ∈ f.nodes, p t.item ↔ t ∈ ts) :
    ts.map Tree.item = f.flatten.filter p := by
  have hnodup : f.nodes.Nodup := (flatten_eq f ▸ h.distinct).of_map.of_map
  rw [flatten_eq, List.filter_map]
  exact congrArg _ (eq_filter_of_sublist hnodup hsub hp)

variable [BEq ι] [LawfulBEq ι]

theorem starts_iff_root (h : f.Linked) {t : Tree α} (ht : t ∈ f.nodes) :
    starts f.flatten t.item ↔ t ∈ f.roots := by
  rw [starts_iff]
  constructor
  · intro hno
    refine (Tree.root_or_reply t ht).resolve_right ?_
    rintro ⟨u, hu, htu⟩
    exact hno u.item ⟨item_mem_flatten hu, h.replies u hu t htu⟩
  · rintro hroot y ⟨hy, hi⟩
    exact h.roots t hroot _ hi (List.mem_map_of_mem hy)

theorem grounded (h : f.Linked) : ∀ x ∈ f.flatten, Grounded f.flatten x := by
  have hnodes : ∀ t ∈ f.nodes, Grounded f.flatten t.item :=
    Tree.nodesAll_induction
      (fun t ht => .start ((h.starts_iff_root (Tree.mem_nodesAll_of_mem ht)).2 ht))
      (fun t ht hground r hr => .reply ⟨item_mem_flatten ht, h.replies t ht r hr⟩ hground)
  intro x hx
  obtain ⟨t, ht, rfl⟩ := exists_node_of_mem_flatten hx
  exact hnodes t ht

theorem arranges (h : f.Linked) : f.Arranges f.flatten where
  roots := h.map_item_eq_filter (Tree.sublist_nodesAll _) fun _ => h.starts_iff_root
  replies t ht := h.map_item_eq_filter (Tree.replies_sublist_nodesAll ht) fun r hr => by
    rw [beq_iff_eq]
    exact h.parent_iff_reply ht hr

end Linked

variable [BEq ι] [LawfulBEq ι] [Hashable ι]

theorem Linked.thread_eq {f : Forest α} (h : f.Linked) : thread f.flatten = .ok f :=
  thread_eq_ok_iff.2 ⟨h.distinct, h.grounded, h.arranges⟩

/-- What threading returns can be threaded again: the items that start a discussion still do. -/
theorem linked_of_thread {xs : List α} {f : Forest α} (hthread : thread xs = .ok f) : f.Linked := by
  obtain ⟨distinct, _, hf⟩ := thread_eq_ok_iff.1 hthread
  have hperm := flatten_perm hthread
  refine ⟨(hperm.map _).nodup_iff.2 distinct, ?_, fun t ht r hr => (hf.reply_mem ht hr).2⟩
  intro t ht i hi hmem
  obtain ⟨y, hy, rfl⟩ := List.mem_map.1 hmem
  exact starts_iff.1 (hf.root_mem ht).2 y ⟨hperm.mem_iff.1 hy, hi⟩

/-- A list is the listing of the forest that it is threaded into if it is the listing of a forest. -/
theorem flatten_eq_iff {xs : List α} {f : Forest α} (hthread : thread xs = .ok f) :
    f.flatten = xs ↔ ∃ g : Forest α, g.Linked ∧ g.flatten = xs := by
  constructor
  · intro h
    exact ⟨f, linked_of_thread hthread, h⟩
  · rintro ⟨g, hg, rfl⟩
    have heq := hg.thread_eq.symm.trans hthread
    rw [Except.ok.inj heq]

/-- Threading the pre-order listing of a forest gives the forest back, and what threading returns is a
forest of this kind. -/
theorem thread_flatten :
    (∀ f : Forest α, f.Linked → thread f.flatten = .ok f) ∧
    ∀ (xs : List α) (f : Forest α), thread xs = .ok f →
      thread f.flatten = .ok f ∧ (f.flatten = xs ↔ ∃ g : Forest α, g.Linked ∧ g.flatten = xs) :=
  ⟨fun _ h => h.thread_eq,
    fun _ _ hthread => ⟨(linked_of_thread hthread).thread_eq, flatten_eq_iff hthread⟩⟩

/-- A promoted root with a reply, and a discussion after it. -/
theorem thread_flatten_of_posts :
    let f : Forest Post :=
      ⟨[.node ⟨7, some 5, "", none⟩ [.leaf ⟨2, some 7, "", none⟩], .leaf ⟨1, none, "", none⟩]⟩
    f.Linked ∧ thread f.flatten = .ok f ∧ ∃ g : Forest Post, g.Linked ∧ g.flatten = f.flatten := by
  intro f
  have hflatten : f.flatten =
      [⟨7, some 5, "", none⟩, ⟨2, some 7, "", none⟩, ⟨1, none, "", none⟩] := flatten_eq f
  have linked : f.Linked := by
    constructor
    · rw [hflatten]
      decide
    · rw [hflatten]
      simp [f, Tree.leaf, parent?, Threaded.id]
    · simp [f, nodes, Tree.leaf, parent?, Threaded.id]
  have hthread := thread_flatten.1 f linked
  exact ⟨linked, hthread, (thread_flatten.2 _ f hthread).2.1 rfl⟩

end Forest

end Discussion
