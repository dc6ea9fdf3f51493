import Discussion.Proofs.Threading.RoundTrip

/-!
# A late item

One more item is put at the end of a list that can be threaded. The roots that name it as their parent
go below it, and it becomes the last reply to its own parent, or the last root. Only if its parent stands
below one of these roots, or is the item itself, a cycle closes: around the item and all that would go
below it.

Results:
1. `Tree.mem_nodesAll_attachAll`: the nodes of trees to which a tree is attached.
2. `Threaded.starters_concat`, `Threaded.repliesTo_concat`: the sibling groups of the longer list.
3. `Forest.Arranges.beside`, `Forest.Arranges.attached`: the two ways in which the forest grows.
4. `Forest.Arranges.not_grounded_concat_iff`: what a cycle leaves over.
-/

namespace Discussion

universe u v

variable {α : Type u} {ι : Type v}

namespace Tree

mutual

/-- Adds a tree as the last reply to each node whose item passes the test. -/
def attach (here : α → Bool) (late : Tree α) : Tree α → Tree α
  | node x ts => node x (attachAll here late ts ++ if here x then [late] else [])

/-- Adds a tree as the last reply to each node of a list of trees whose item passes the test. -/
def attachAll (here : α → Bool) (late : Tree α) : List (Tree α) → List (Tree α)
  | [] => []
  | t :: ts => attach here late t :: attachAll here late ts

end

section Attach

variable {here : α → Bool} {late : Tree α} {ts : List (Tree α)}

theorem attachAll_eq_map : attachAll here late ts = ts.map (attach here late) := by
  induction ts with
  | nil => rfl
  | cons t ts ih => rw [attachAll, ih, List.map_cons]

theorem item_attach (t : Tree α) : (attach here late t).item = t.item := by
  cases t; rfl

theorem replies_attach (t : Tree α) : (attach here late t).replies =
    t.replies.map (attach here late) ++ if here t.item then [late] else [] := by
  cases t
  rw [attach, replies_node, replies_node, item_node, attachAll_eq_map]

theorem map_item_attach : (ts.map (attach here late)).map item = ts.map item := by
  rw [List.map_map]
  exact List.map_congr_left fun t _ => item_attach t

theorem reply_mem_nodes {t u r : Tree α} (hu : u ∈ t.nodes) (hr : r ∈ u.replies) : r ∈ t.nodes :=
  (nodes_sublist_nodes hu).subset (mem_nodes.2 (.inr (mem_nodesAll_of_mem hr)))

theorem attach_mem_nodesAll :
    ∀ t ∈ nodesAll ts, attach here late t ∈ nodesAll (attachAll here late ts) := by
  rw [attachAll_eq_map]
  refine nodesAll_induction (fun t ht => mem_nodesAll_of_mem (List.mem_map_of_mem ht)) ?_
  intro t _ ht r hr
  refine reply_mem_nodesAll ht ?_
  rw [replies_attach]
  exact List.mem_append_left _ (List.mem_map_of_mem hr)

theorem late_mem_nodesAll (here : α → Bool) (late : Tree α) {t : Tree α} (ht : t ∈ nodesAll ts)
    (hhere : here t.item) : late ∈ nodesAll (attachAll here late ts) := by
  refine reply_mem_nodesAll (attach_mem_nodesAll t ht) ?_
  rw [replies_attach, if_pos hhere]
  exact List.mem_append_right _ (List.mem_singleton_self late)

/-- The nodes are those that were there, with what is attached to them, and those of the new tree. -/
theorem mem_nodesAll_attachAll : ∀ t ∈ nodesAll (attachAll here late ts),
    (∃ u ∈ nodesAll ts, attach here late u = t) ∨ t ∈ late.nodes := by
  rw [attachAll_eq_map]
  refine nodesAll_induction ?_ ?_
  · intro t ht
    obtain ⟨u, hu, rfl⟩ := List.mem_map.1 ht
    exact .inl ⟨u, mem_nodesAll_of_mem hu, rfl⟩
  · rintro t - (⟨u, hu, rfl⟩ | ht) r hr
    · rw [replies_attach] at hr
      rcases List.mem_append.1 hr with hr | hr
      · obtain ⟨s, hs, rfl⟩ := List.mem_map.1 hr
        exact .inl ⟨s, reply_mem_nodesAll hu hs, rfl⟩
      · split at hr
        · rw [List.mem_singleton.1 hr]
          exact .inr late.self_mem_nodes
        · cases hr
    · exact .inr (reply_mem_nodes ht hr)

end Attach

end Tree

/-! ## The longer list -/

namespace Threaded

variable [Threaded α ι]

theorem nodup_concat {xs : List α} {x : α} (distinct : (xs.map id).Nodup)
    (fresh : id x ∉ xs.map id) : ((xs ++ [x]).map id).Nodup := by
  rw [List.map_append]
  exact distinct.append (List.nodup_singleton _) (List.disjoint_singleton.2 fresh)

variable [BEq ι]

/-- Items each of which has its parent among them have chains of parents that never end. -/
theorem not_grounded_of_closed [LawfulBEq ι] {xs : List α} (distinct : (xs.map id).Nodup)
    {P : α → Prop} (closed : ∀ y, P y → ∃ z, Answers xs y z ∧ P z) {x : α} (hx : P x) :
    ¬ Grounded xs x := by
  intro hground
  induction hground with
  | start hs =>
    obtain ⟨z, hz, _⟩ := closed _ hx
    exact starts_iff.1 hs z hz
  | reply hy _ ih =>
    obtain ⟨z, hz, hp⟩ := closed _ hx
    exact ih (answers_unique distinct hy hz ▸ hp)

variable [LawfulBEq ι] {xs : List α} {x : α}

theorem starts_concat (y : α) :
    starts (xs ++ [x]) y = (starts xs y && !(parent? y == some (id x))) := by
  rw [Bool.eq_iff_iff, Bool.and_eq_true, starts_iff, starts_iff, Bool.not_eq_true',
    beq_eq_false_iff_ne]
  constructor
  · intro hno
    refine ⟨fun z hz => hno z ⟨List.mem_append_left _ hz.1, hz.2⟩, fun heq => ?_⟩
    exact hno x ⟨List.mem_append_right _ (List.mem_singleton_self x), heq⟩
  · rintro ⟨hno, hne⟩ z ⟨hz, hparent⟩
    rcases List.mem_append.1 hz with hz | hz
    · exact hno z ⟨hz, hparent⟩
    · rw [List.mem_singleton.1 hz] at hparent
      exact hne hparent

theorem starters_concat : starters (xs ++ [x]) =
    (starters xs).filter (fun y => !(parent? y == some (id x))) ++
      if starts (xs ++ [x]) x then [x] else [] := by
  have hold : xs.filter (starts (xs ++ [x])) =
      (starters xs).filter fun y => !(parent? y == some (id x)) := by
    rw [starters, List.filter_filter]
    refine List.filter_congr fun y _ => ?_
    rw [starts_concat, Bool.and_comm]
  rw [starters, List.filter_append, hold, List.filter_singleton, cond_eq_ite]

omit [LawfulBEq ι] in
theorem repliesTo_concat (i : ι) : repliesTo (xs ++ [x]) i =
    repliesTo xs i ++ if parent? x == some i then [x] else [] := by
  rw [repliesTo, List.filter_append, List.filter_singleton, cond_eq_ite, repliesTo]

theorem repliesTo_concat_of_ne {i : ι} (h : parent? x ≠ some i) :
    repliesTo (xs ++ [x]) i = repliesTo xs i := by
  rw [repliesTo_concat, if_neg (fun heq => h (beq_iff_eq.1 heq)), List.append_nil]

end Threaded

/-! ## The larger forest -/

namespace Forest

open Threaded

variable [Threaded α ι] [BEq ι]

/-- The roots that name an item as their parent. -/
def adopted (f : Forest α) (x : α) : List (Tree α) :=
  f.roots.filter fun t => parent? t.item == some (Threaded.id x)

/-- The other roots. -/
def others (f : Forest α) (x : α) : List (Tree α) :=
  f.roots.filter fun t => !(parent? t.item == some (Threaded.id x))

/-- The items in the trees that an item adopts. -/
def gathered (f : Forest α) (x : α) : List α :=
  (Tree.nodesAll (f.adopted x)).map Tree.item

/-- The item replies to itself or to an item in a tree that it adopts. -/
def ClosesCycle (f : Forest α) (x : α) : Prop :=
  ∃ y, (y ∈ f.gathered x ∨ y = x) ∧ parent? x = some (Threaded.id y)

variable {f : Forest α} {xs : List α} {x : α}

theorem ne_of_not_closesCycle (h : ¬ f.ClosesCycle x) : parent? x ≠ some (Threaded.id x) :=
  fun heq => h ⟨x, .inr rfl, heq⟩

theorem ne_of_mem_adopted (h : ¬ f.ClosesCycle x) {t : Tree α}
    (ht : t ∈ Tree.nodesAll (f.adopted x)) : parent? x ≠ some (Threaded.id t.item) :=
  fun heq => h ⟨t.item, .inl (List.mem_map_of_mem ht), heq⟩

theorem adopted_subset_nodes : Tree.nodesAll (f.adopted x) ⊆ f.nodes :=
  Tree.nodesAll_subset (List.filter_subset_self _)

theorem others_subset_nodes : Tree.nodesAll (f.others x) ⊆ f.nodes :=
  Tree.nodesAll_subset (List.filter_subset_self _)

theorem adopted_or_others {t : Tree α} (ht : t ∈ f.nodes) :
    t ∈ Tree.nodesAll (f.adopted x) ∨ t ∈ Tree.nodesAll (f.others x) := by
  obtain ⟨u, hu, ht⟩ := Tree.mem_nodesAll.1 ht
  by_cases hp : parent? u.item == some (Threaded.id x)
  · exact .inl (Tree.mem_nodesAll.2 ⟨u, List.mem_filter.2 ⟨hu, hp⟩, ht⟩)
  · have hu : u ∈ f.others x := List.mem_filter.2 ⟨hu, by simpa using hp⟩
    exact .inr (Tree.mem_nodesAll.2 ⟨u, hu, ht⟩)

theorem Arranges.map_others (h : f.Arranges xs) : (f.others x).map Tree.item =
    (starters xs).filter fun y => !(parent? y == some (Threaded.id x)) := by
  rw [← h.roots, List.filter_map]
  rfl

variable [LawfulBEq ι]

/-- The roots that name a new item are the items of the list that name it. -/
theorem Arranges.map_adopted (h : f.Arranges xs) (fresh : Threaded.id x ∉ xs.map Threaded.id) :
    (f.adopted x).map Tree.item = repliesTo xs (Threaded.id x) := by
  have hitems : (f.adopted x).map Tree.item =
      (starters xs).filter fun y => parent? y == some (Threaded.id x) := by
    rw [← h.roots, List.filter_map]
    rfl
  rw [hitems, starters, List.filter_filter, repliesTo]
  refine List.filter_congr fun y _ => ?_
  rw [Bool.eq_iff_iff, Bool.and_eq_true, and_iff_left_iff_imp, beq_iff_eq, starts_iff]
  rintro hy z ⟨hz, hparent⟩
  rw [hy] at hparent
  exact fresh (List.mem_map.2 ⟨z, hz, (Option.some.inj hparent).symm⟩)

/-- The tree of the new item is in order if the item replies to nothing in it. -/
theorem Arranges.replies_late (h : f.Arranges xs) (fresh : Threaded.id x ∉ xs.map Threaded.id)
    (hopen : ¬ f.ClosesCycle x) :
    ∀ t ∈ (Tree.node x (f.adopted x)).nodes,
      t.replies.map Tree.item = repliesTo (xs ++ [x]) (Threaded.id t.item) := by
  intro t ht
  rcases Tree.mem_nodes.1 ht with rfl | ht
  · rw [Tree.replies_node, Tree.item_node, repliesTo_concat_of_ne (ne_of_not_closesCycle hopen),
      h.map_adopted fresh]
  · rw [repliesTo_concat_of_ne (ne_of_mem_adopted hopen ht), h.replies t (adopted_subset_nodes ht)]

theorem Arranges.beside (h : f.Arranges xs) (fresh : Threaded.id x ∉ xs.map Threaded.id)
    (hopen : ¬ f.ClosesCycle x) (hstart : starts xs x) :
    Arranges ⟨f.others x ++ [.node x (f.adopted x)]⟩ (xs ++ [x]) := by
  have hparent : ∀ t ∈ f.nodes, parent? x ≠ some (Threaded.id t.item) := fun t ht heq =>
    starts_iff.1 hstart t.item ⟨(h.item_mem t ht).1, heq⟩
  constructor
  · have hx : starts (xs ++ [x]) x := by
      simp [starts_concat, hstart, ne_of_not_closesCycle hopen]
    rw [List.map_append, h.map_others, starters_concat, if_pos hx]
    rfl
  · intro t ht
    rw [nodes, Tree.nodesAll_append, List.mem_append, Tree.nodesAll_cons, Tree.nodesAll_nil,
      List.append_nil] at ht
    rcases ht with ht | ht
    · have ht := others_subset_nodes ht
      rw [repliesTo_concat_of_ne (hparent t ht), h.replies t ht]
    · exact h.replies_late fresh hopen t ht

theorem Arranges.attached (h : f.Arranges xs) (fresh : Threaded.id x ∉ xs.map Threaded.id)
    (hopen : ¬ f.ClosesCycle x) {y : α} (hanswers : Answers xs x y) :
    Arranges ⟨Tree.attachAll (fun z => Threaded.id z == Threaded.id y)
      (.node x (f.adopted x)) (f.others x)⟩ (xs ++ [x]) := by
  constructor
  · have hx : ¬ starts (xs ++ [x]) x := fun hs =>
      starts_iff.1 hs y ⟨List.mem_append_left _ hanswers.1, hanswers.2⟩
    rw [Tree.attachAll_eq_map, Tree.map_item_attach, h.map_others, starters_concat, if_neg hx,
      List.append_nil]
  · intro t ht
    rcases Tree.mem_nodesAll_attachAll t ht with ⟨u, hu, rfl⟩ | ht
    · rw [Tree.replies_attach, List.map_append, Tree.map_item_attach, Tree.item_attach,
        repliesTo_concat, h.replies u (others_subset_nodes hu), hanswers.2]
      refine congrArg _ ?_
      by_cases hu : Threaded.id u.item = Threaded.id y
      · simp [hu]
      · simp [hu, Ne.symm hu]
    · exact h.replies_late fresh hopen t ht

/-! ## What a cycle leaves over -/

theorem Arranges.grounded_others (h : f.Arranges xs) :
    ∀ t ∈ Tree.nodesAll (f.others x), Grounded (xs ++ [x]) t.item := by
  refine Tree.nodesAll_induction ?_ ?_
  · intro t ht
    obtain ⟨ht, hparent⟩ := List.mem_filter.1 ht
    refine .start ?_
    rw [starts_concat, (h.root_mem ht).2, hparent]
    rfl
  · intro t ht hground r hr
    obtain ⟨_, hparent⟩ := h.reply_mem (others_subset_nodes ht) hr
    have hmem := (h.item_mem t (others_subset_nodes ht)).1
    exact .reply ⟨List.mem_append_left _ hmem, hparent⟩ hground

/-- If the new item replies to itself or to an item that would go below it, this item and all these
items have chains of parents that never end, and no others. -/
theorem Arranges.not_grounded_concat_iff (h : f.Arranges xs)
    (distinct : (xs.map Threaded.id).Nodup) (grounded : ∀ y ∈ xs, Grounded xs y)
    (fresh : Threaded.id x ∉ xs.map Threaded.id)
    (hcycle : f.ClosesCycle x) :
    ∀ y ∈ xs ++ [x], ¬ Grounded (xs ++ [x]) y ↔ y ∈ f.gathered x ∨ y = x := by
  have hx : x ∈ xs ++ [x] := List.mem_append_right _ (List.mem_singleton_self x)
  have hold : ∀ t ∈ Tree.nodesAll (f.adopted x), t.item ∈ xs ++ [x] := fun t ht =>
    List.mem_append_left _ (h.item_mem t (adopted_subset_nodes ht)).1
  intro y hy
  constructor
  · intro hno
    rcases List.mem_append.1 hy with hy | hy
    · obtain ⟨t, ht, rfl⟩ := h.exists_node hy (grounded y hy)
      rcases adopted_or_others ht with ht | ht
      · exact .inl (List.mem_map_of_mem ht)
      · exact absurd (h.grounded_others t ht) hno
    · exact .inr (List.mem_singleton.1 hy)
  · -- each of these items has its parent among them
    refine not_grounded_of_closed (nodup_concat distinct fresh)
      (P := fun z => z ∈ f.gathered x ∨ z = x) ?_
    rintro y (hy | rfl)
    · obtain ⟨t, ht, rfl⟩ := List.mem_map.1 hy
      rcases Tree.root_or_reply t ht with hroot | ⟨u, hu, hr⟩
      · exact ⟨x, ⟨hx, beq_iff_eq.1 (List.mem_filter.1 hroot).2⟩, .inr rfl⟩
      · exact ⟨u.item, ⟨hold u hu, (h.reply_mem (adopted_subset_nodes hu) hr).2⟩,
          .inl (List.mem_map_of_mem hu)⟩
    · obtain ⟨z, hz, hparent⟩ := hcycle
      refine ⟨z, ⟨?_, hparent⟩, hz⟩
      rcases hz with hz | rfl
      · obtain ⟨t, ht, rfl⟩ := List.mem_map.1 hz
        exact hold t ht
      · exact hx

/-! ## Threading the longer list -/

variable [Hashable ι]

theorem thread_beside (hf : thread xs = .ok f) (fresh : Threaded.id x ∉ xs.map Threaded.id)
    (hopen : ¬ f.ClosesCycle x) (hstart : starts xs x) :
    thread (xs ++ [x]) = .ok ⟨f.others x ++ [.node x (f.adopted x)]⟩ := by
  obtain ⟨distinct, grounded, h⟩ := thread_eq_ok_iff.1 hf
  refine (h.beside fresh hopen hstart).thread_eq (nodup_concat distinct fresh) fun y hy => ?_
  have hnodes : Forest.nodes ⟨f.others x ++ [.node x (f.adopted x)]⟩ =
      Tree.nodesAll (f.others x) ++ .node x (f.adopted x) :: Tree.nodesAll (f.adopted x) := by
    rw [nodes, Tree.nodesAll_append, Tree.nodesAll_cons, Tree.nodesAll_nil, List.append_nil,
      Tree.nodes_node]
  rw [hnodes]
  rcases List.mem_append.1 hy with hy | hy
  · obtain ⟨t, ht, rfl⟩ := h.exists_node hy (grounded y hy)
    refine ⟨t, ?_, rfl⟩
    rcases adopted_or_others ht with ht | ht
    · exact List.mem_append_right _ (List.mem_cons_of_mem _ ht)
    · exact List.mem_append_left _ ht
  · exact ⟨_, List.mem_append_right _ List.mem_cons_self, (List.mem_singleton.1 hy).symm⟩

theorem exists_parent_node (hf : thread xs = .ok f) (hopen : ¬ f.ClosesCycle x) {y : α}
    (hanswers : Answers xs x y) : ∃ t ∈ Tree.nodesAll (f.others x), t.item = y := by
  obtain ⟨_, grounded, h⟩ := thread_eq_ok_iff.1 hf
  obtain ⟨t, ht, rfl⟩ := h.exists_node hanswers.1 (grounded y hanswers.1)
  refine ⟨t, (adopted_or_others ht).resolve_left fun ht => ?_, rfl⟩
  exact ne_of_mem_adopted hopen ht hanswers.2

theorem thread_attached (hf : thread xs = .ok f) (fresh : Threaded.id x ∉ xs.map Threaded.id)
    (hopen : ¬ f.ClosesCycle x) {y : α} (hanswers : Answers xs x y) :
    thread (xs ++ [x]) = .ok ⟨Tree.attachAll (fun z => Threaded.id z == Threaded.id y)
      (.node x (f.adopted x)) (f.others x)⟩ := by
  obtain ⟨distinct, grounded, h⟩ := thread_eq_ok_iff.1 hf
  obtain ⟨p, hp, hitem⟩ := exists_parent_node hf hopen hanswers
  have hlate := Tree.late_mem_nodesAll (fun z => Threaded.id z == Threaded.id y)
    (.node x (f.adopted x)) hp (by rw [hitem]; exact beq_self_eq_true _)
  refine (h.attached fresh hopen hanswers).thread_eq (nodup_concat distinct fresh) fun z hz => ?_
  rcases List.mem_append.1 hz with hz | hz
  · obtain ⟨t, ht, rfl⟩ := h.exists_node hz (grounded z hz)
    rcases adopted_or_others ht with ht | ht
    · exact ⟨t, Tree.mem_nodesAll_trans hlate (Tree.mem_nodes.2 (.inr ht)), rfl⟩
    · exact ⟨_, Tree.attach_mem_nodesAll t ht, Tree.item_attach t⟩
  · exact ⟨_, hlate, (List.mem_singleton.1 hz).symm⟩

/-- The trees of the roots that name a new item go below it. It becomes the last root if it names no
parent or none in the list, and else the last reply to the one node of its parent. If it replies to
itself or to an item in these trees, the first of these items and itself is reported. -/
theorem thread_concat (xs : List α) (f : Forest α) (x : α) (hf : thread xs = .ok f)
    (fresh : Threaded.id x ∉ xs.map Threaded.id) :
    (¬ f.ClosesCycle x →
      (starts xs x → thread (xs ++ [x]) = .ok ⟨f.others x ++ [.node x (f.adopted x)]⟩) ∧
      ∀ y, Answers xs x y →
        (∃! t, t ∈ Tree.nodesAll (f.others x) ∧ Threaded.id t.item = Threaded.id y) ∧
        thread (xs ++ [x]) = .ok ⟨Tree.attachAll (fun z => Threaded.id z == Threaded.id y)
          (.node x (f.adopted x)) (f.others x)⟩) ∧
    (f.ClosesCycle x → ∃ y, FirstWith (fun z => z ∈ f.gathered x ∨ z = x) (xs ++ [x]) y ∧
      thread (xs ++ [x]) = .error (.cycle (Threaded.id y))) := by
  refine ⟨fun hopen => ⟨thread_beside hf fresh hopen, fun y hanswers => ⟨?_, ?_⟩⟩, fun hcycle => ?_⟩
  · obtain ⟨t, ht, rfl⟩ := exists_parent_node hf hopen hanswers
    refine ⟨t, ⟨ht, rfl⟩, fun u hu => ?_⟩
    exact (linked_of_thread hf).node_unique (others_subset_nodes hu.1) (others_subset_nodes ht) hu.2
  · exact thread_attached hf fresh hopen hanswers
  · obtain ⟨distinct, grounded, h⟩ := thread_eq_ok_iff.1 hf
    have hiff := h.not_grounded_concat_iff distinct grounded fresh hcycle
    have hx : x ∈ xs ++ [x] := List.mem_append_right _ (List.mem_singleton_self x)
    obtain ⟨y, hy⟩ := exists_firstStranded_iff.2 ⟨x, hx, (hiff x hx).2 (.inr rfl)⟩
    refine ⟨y, (firstStranded_iff_firstWith.1 hy).congr hiff, ?_⟩
    exact thread_of_firstStranded (nodup_concat distinct fresh) hy

/-- A root with a reply waits for item 5, which replies to the other root, or to the reply. -/
theorem thread_concat_of_posts :
    thread [(⟨2, some 5, "", none⟩ : Post), ⟨3, some 2, "", none⟩, ⟨1, none, "", none⟩,
        ⟨5, some 1, "", none⟩] =
      .ok ⟨[.node ⟨1, none, "", none⟩ [.node ⟨5, some 1, "", none⟩
        [.node ⟨2, some 5, "", none⟩ [.leaf ⟨3, some 2, "", none⟩]]]]⟩ ∧
    thread [(⟨2, some 5, "", none⟩ : Post), ⟨3, some 2, "", none⟩, ⟨1, none, "", none⟩,
        ⟨5, some 3, "", none⟩] = .error (.cycle 2) := by
  let f : Forest Post :=
    ⟨[.node ⟨2, some 5, "", none⟩ [.leaf ⟨3, some 2, "", none⟩], .leaf ⟨1, none, "", none⟩]⟩
  have hflatten : f.flatten =
      [⟨2, some 5, "", none⟩, ⟨3, some 2, "", none⟩, ⟨1, none, "", none⟩] := flatten_eq f
  have linked : f.Linked := by decide
  have hf := linked.thread_eq
  rw [hflatten] at hf
  constructor
  · have hopen : ¬ f.ClosesCycle ⟨5, some 1, "", none⟩ := by
      rintro ⟨y, hy, hparent⟩
      have hgathered : f.gathered ⟨5, some 1, "", none⟩ =
        [⟨2, some 5, "", none⟩, ⟨3, some 2, "", none⟩] := rfl
      rw [hgathered] at hy
      rcases hy with hy | rfl
      · simp at hy
        rcases hy with rfl | rfl <;> cases hparent
      · cases hparent
    exact (((thread_concat _ f ⟨5, some 1, "", none⟩ hf (by decide)).1 hopen).2
      ⟨1, none, "", none⟩ ⟨by decide, rfl⟩).2
  · obtain ⟨y, hy, herror⟩ := (thread_concat _ f ⟨5, some 3, "", none⟩ hf (by decide)).2
      ⟨⟨3, some 2, "", none⟩, .inl (by decide), rfl⟩
    have hfirst : y = ⟨2, some 5, "", none⟩ :=
      hy.unique ⟨[], _, rfl, List.forall_mem_nil _, .inl (by decide)⟩
    rw [hfirst] at herror
    exact herror

end Forest

end Discussion
