import Mathlib.Data.List.Nodup
import Mathlib.Data.Set.Finite.List
import Mathlib.Logic.Relation
import Discussion.Proofs.Arena.Unfolding

/-!
# Sequences of insertions

An arena is filled by insertions that may name any parent: none, a live one, one that is not there or
not there yet, or the node that is being inserted. Whatever they name, the nodes below the roots are a
forest, and a node that is its own reply is not among them.

Results:
1. `coherent_insertAll`, `label?_insertAll`: what a sequence of insertions leaves in the arena.
2. `Coherent.nodup_listed`: no node is listed in two places, or twice in one.
3. `Coherent.rooted_of_reply`, `Coherent.slot_lt_of_below`: what is reached from the roots is reached
   through the parents, each one inserted earlier.
4. `Unfolds.rooted_iff`: the trees that an arena unfolds to hold what is reached from the roots.
-/

namespace Discussion.Arena

universe u

variable {α : Type u}

/-! ## Filling an arena -/

theorem insertAll_concat (a : Arena α) (calls : List (α × Option Index)) (x : α)
    (q : Option Index) : a.insertAll (calls ++ [(x, q)]) = (a.insertAll calls).insert x q := by
  rw [insertAll, List.foldl_append]
  rfl

theorem Coherent.insertAll {a : Arena α} (h : a.Coherent) (calls : List (α × Option Index)) :
    (a.insertAll calls).Coherent := by
  induction calls generalizing a with
  | nil => exact h
  | cons call calls ih => exact ih (h.insert call.1 call.2)

theorem coherent_insertAll (calls : List (α × Option Index)) :
    (empty.insertAll calls).Coherent :=
  coherent_empty.insertAll calls

theorem size_insertAll (calls : List (α × Option Index)) :
    (empty.insertAll calls).size = calls.length := by
  induction calls using List.reverseRecOn with
  | nil => rfl
  | append_singleton calls call ih =>
    rw [insertAll_concat, size_insert, ih, List.length_append, List.length_singleton]

/-- The node in each slot has the item and the parent of the insertion that filled the slot. -/
theorem label?_insertAll (calls : List (α × Option Index)) (k : Nat) :
    (empty.insertAll calls).label? ⟨k, 0⟩ = calls[k]? := by
  induction calls using List.reverseRecOn with
  | nil => rfl
  | append_singleton calls call ih =>
    have hnext : (empty.insertAll calls).nextIndex = ⟨calls.length, 0⟩ :=
      congrArg (Index.mk · 0) (size_insertAll calls)
    rw [insertAll_concat, label?_insert, ih, hnext]
    rcases Nat.lt_trichotomy k calls.length with hlt | rfl | hgt
    · have hne : Index.mk k 0 ≠ ⟨calls.length, 0⟩ := fun h => hlt.ne (Index.mk.inj h).1
      rw [if_neg hne, List.getElem?_append_left hlt]
    · rw [if_pos rfl, List.getElem?_concat_length]
    · have hne : Index.mk k 0 ≠ ⟨calls.length, 0⟩ := fun h => hgt.ne' (Index.mk.inj h).1
      have hlength : (calls ++ [call]).length ≤ k := by rwa [List.length_append]
      rw [if_neg hne, List.getElem?_eq_none hgt.le, List.getElem?_eq_none hlength]

/-! ## The places where nodes are listed -/

/-- The nodes that are listed anywhere: the roots, and the replies to every node. -/
def listed (a : Arena α) : List Index :=
  a.roots.toList ++ a.nodes.toList.flatMap fun n => n.replies.toList

theorem under_slot (a : Arena α) {k : Nat} (hk : k < a.nodes.toList.length) :
    a.under (some ⟨k, 0⟩) = a.nodes.toList[k].replies.toList := by
  refine under_eq_of_get? ?_
  rw [get?, if_pos rfl, ← Array.getElem?_toList, List.getElem?_eq_getElem hk]

/-- No node is listed twice: a node is listed under the parent that it names, and once there. -/
theorem Coherent.nodup_listed {a : Arena α} (h : a.Coherent) : a.listed.Nodup := by
  have apart {q r : Option Index} (hne : q ≠ r) : (a.under q).Disjoint (a.under r) :=
    fun i hq hr => hne (h.place_unique hq hr)
  refine List.nodup_append'.2 ⟨h.nodup_under none, List.nodup_flatMap.2 ⟨?_, ?_⟩, ?_⟩
  · intro n hn
    obtain ⟨k, hk, rfl⟩ := List.getElem_of_mem hn
    exact a.under_slot hk ▸ h.nodup_under _
  · -- the lists of two nodes stand in two slots, so nothing can be in both
    refine List.pairwise_iff_getElem.2 fun k l hk hl hlt => ?_
    have hdisjoint := apart (q := some ⟨k, 0⟩) (r := some ⟨l, 0⟩) (by simp; omega)
    rwa [a.under_slot hk, a.under_slot hl] at hdisjoint
  · intro i hroot hi
    obtain ⟨n, hn, hi⟩ := List.mem_flatMap.1 hi
    obtain ⟨k, hk, rfl⟩ := List.getElem_of_mem hn
    exact apart (Option.some_ne_none _).symm hroot (a.under_slot hk ▸ hi)

/-! ## What is reached from the roots -/

/-- The second index is listed as a direct reply to the first. -/
def Lists (a : Arena α) (p i : Index) : Prop :=
  i ∈ a.under (some p)

theorem lists_iff {a : Arena α} {p i : Index} {n : Node α} (hn : a.get? p = some n) :
    a.Lists p i ↔ i ∈ n.replies.toList := by
  rw [Lists, under_eq_of_get? hn]

theorem Coherent.rooted_of_reply {a : Arena α} (h : a.Coherent) {p i : Index} (hi : a.Lists p i)
    (hrooted : a.Rooted i) : a.Rooted p := by
  cases hrooted with
  | root hroot => cases h.place_unique hroot hi
  | reply hq hqi =>
    cases h.place_unique hqi hi
    exact hq

/-- Nothing is reached through a node that is its own reply. -/
theorem Coherent.not_rooted_below_loop {a : Arena α} (h : a.Coherent) {p i : Index}
    (hloop : a.Lists p p) (hi : Relation.ReflTransGen a.Lists p i) : ¬ a.Rooted i := by
  -- the loop itself is not reached, and a parent is reached if a reply to it is
  induction hi with
  | refl => exact fun hp => h.not_mem_under_self hp hloop
  | tail _ hji ih => exact fun hi => ih (h.rooted_of_reply hji hi)

theorem Coherent.slot_lt_of_below {a : Arena α} (h : a.Coherent) {i j : Index}
    (hij : Relation.TransGen a.Lists i j) (hi : a.Rooted i) : a.Rooted j ∧ i.slot < j.slot := by
  induction hij with
  | single hj => exact ⟨hi.reply hj, h.slot_lt hi hj⟩
  | tail _ hk ih => exact ⟨ih.1.reply hk, Nat.lt_trans ih.2 (h.slot_lt ih.1 hk)⟩

theorem Coherent.finite_rooted {a : Arena α} (h : a.Coherent) : {i | a.Rooted i}.Finite := by
  refine ((List.range a.size).map (Index.mk · 0)).finite_toSet.subset fun i hi => ?_
  obtain ⟨q, hq⟩ := Rooted.exists_place hi
  obtain ⟨hgeneration, hslot⟩ := h.within hq
  exact List.mem_map.2 ⟨i.slot, List.mem_range.2 hslot, by rw [← hgeneration]⟩

theorem Unfolds.rooted_iff {a : Arena α} {ts : List (Tree (Index × Node α))} (hts : a.Unfolds ts)
    {i : Index} : a.Rooted i ↔ ∃ t ∈ Tree.nodesAll ts, t.item.1 = i := by
  constructor
  · intro hi
    induction hi with
    | root hroot =>
      obtain ⟨t, ht, rfl⟩ := List.mem_map.1 (hts.roots ▸ hroot)
      exact ⟨t, Tree.mem_nodesAll_of_mem ht, rfl⟩
    | reply _ hreply ih =>
      obtain ⟨t, ht, rfl⟩ := ih
      obtain ⟨r, hr, rfl⟩ := List.mem_map.1 ((hts.shows t ht).2 ▸ hreply)
      exact ⟨r, Tree.reply_mem_nodesAll ht hr, rfl⟩
  · rintro ⟨t, ht, rfl⟩
    revert t
    refine Tree.nodesAll_induction (fun t ht => .root ?_) (fun t ht hp r hr => .reply hp ?_)
    · exact hts.roots ▸ List.mem_map_of_mem ht
    · exact (hts.shows t ht).2 ▸ List.mem_map_of_mem hr

/-! ## Every state -/

theorem Coherent.mem_roots_iff {a : Arena α} (h : a.Coherent) {i : Index} :
    i ∈ a.roots.toList ↔ ∃ n, a.get? i = some n ∧ n.parent = none := by
  refine (h.mem_under_iff none i).trans ?_
  constructor
  · rintro ⟨x, hx, _⟩
    obtain ⟨n, hn, hlabel⟩ := Option.map_eq_some_iff.1 hx
    exact ⟨n, hn, (Prod.mk.inj hlabel).2⟩
  · rintro ⟨n, hn, hparent⟩
    exact ⟨n.item, by rw [label?, hn, ← hparent]; rfl, nofun⟩

theorem Coherent.parent_of_reply {a : Arena α} (h : a.Coherent) {p c : Index} {n : Node α}
    (hn : a.get? p = some n) (hc : c ∈ n.replies.toList) :
    (∃ m, a.get? c = some m ∧ m.parent = some p) ∧ (p = c ∨ p.slot < c.slot) := by
  have hc : c ∈ a.under (some p) := (lists_iff hn).2 hc
  obtain ⟨x, hx, hw⟩ := (h.mem_under_iff _ _).1 hc
  obtain ⟨m, hm, hlabel⟩ := Option.map_eq_some_iff.1 hx
  refine ⟨⟨m, hm, (Prod.mk.inj hlabel).2⟩, ?_⟩
  rcases Nat.lt_or_eq_of_le (Nat.le_of_lt_succ (hw p rfl).2) with hlt | heq
  · exact .inr hlt
  · exact .inl ((hw p rfl).eq_of_slot_eq (h.within hc) heq)

/-- Whatever parents a sequence of insertions names, the arena that it fills holds the items in their
order, and lists no node twice. The roots are the nodes without a parent; a reply names the node that
lists it, which was inserted before, or is the reply itself; and every list is in the order of insertion.
A node that is its own reply, and all that is listed below it, is not reached from the roots, and what is
reached from them is a finite forest. -/
theorem insertAll_links (calls : List (α × Option Index)) :
    let a : Arena α := empty.insertAll calls
    (a.size = calls.length ∧
      ∀ k, (a.get? ⟨k, 0⟩).map (fun n => (n.item, n.parent)) = calls[k]?) ∧
    (a.roots.toList ++ a.nodes.toList.flatMap fun n => n.replies.toList).Nodup ∧
    (∀ i, i ∈ a.roots.toList ↔ ∃ n, a.get? i = some n ∧ n.parent = none) ∧
    (∀ p n, a.get? p = some n → ∀ c ∈ n.replies.toList,
      (∃ m, a.get? c = some m ∧ m.parent = some p) ∧ (p = c ∨ p.slot < c.slot)) ∧
    (a.roots.toList.Pairwise fun i j => i.slot < j.slot) ∧
    (∀ p n, a.get? p = some n → n.replies.toList.Pairwise fun i j => i.slot < j.slot) ∧
    (∀ p n, a.get? p = some n → p ∈ n.replies.toList →
      ∀ c, Relation.ReflTransGen a.Lists p c → ¬ a.Rooted c) ∧
    {i | a.Rooted i}.Finite ∧
    (∀ i, a.Rooted i → ¬ Relation.TransGen a.Lists i i) ∧
    ∃ ts : List (Tree (Index × Node α)), a.Unfolds ts ∧
      ((Tree.nodesAll ts).map (·.item.1)).Nodup ∧
      ∀ i, a.Rooted i ↔ ∃ t ∈ Tree.nodesAll ts, t.item.1 = i := by
  intro a
  have h : a.Coherent := coherent_insertAll calls
  refine ⟨⟨size_insertAll calls, label?_insertAll calls⟩, h.nodup_listed, fun i => h.mem_roots_iff,
    fun p n hn c => h.parent_of_reply hn, h.sorted none, fun p n hn => ?_, fun p n hn hloop c => ?_,
    h.finite_rooted, fun i hi hcycle => ?_, ?_⟩
  · exact under_eq_of_get? hn ▸ h.sorted (some p)
  · exact h.not_rooted_below_loop ((lists_iff hn).2 hloop)
  · exact Nat.lt_irrefl _ (h.slot_lt_of_below hcycle hi).2
  · obtain ⟨ts, hts⟩ := h.exists_unfolds
    exact ⟨ts, hts, hts.nodup_index h, fun i => hts.rooted_iff⟩

/-- A root with a reply, a node that is its own reply with a reply of its own, and two nodes whose
parents are not there: one names an index of another generation, one an index that is handed out later. -/
theorem insertAll_links_of_numbers :
    let a : Arena Nat := empty.insertAll [(10, none), (11, some ⟨0, 0⟩), (12, some ⟨2, 0⟩),
      (13, some ⟨2, 0⟩), (14, some ⟨0, 1⟩), (15, some ⟨6, 0⟩), (16, none)]
    a.roots.toList = [⟨0, 0⟩, ⟨6, 0⟩] ∧ (a.nodes.toList.map (·.replies.toList)) =
      [[⟨1, 0⟩], [], [⟨2, 0⟩, ⟨3, 0⟩], [], [], [], []] ∧
    a.Rooted ⟨1, 0⟩ ∧ ¬ a.Rooted ⟨2, 0⟩ ∧ ¬ a.Rooted ⟨3, 0⟩ := by
  intro a
  obtain ⟨_, _, _, _, _, _, hloop, _⟩ := insertAll_links [(10, none), (11, some ⟨0, 0⟩),
    (12, some ⟨2, 0⟩), (13, some ⟨2, 0⟩), (14, some ⟨0, 1⟩), (15, some ⟨6, 0⟩), (16, none)]
  have hself : a.get? ⟨2, 0⟩ = some ⟨12, some ⟨2, 0⟩, #[⟨2, 0⟩, ⟨3, 0⟩]⟩ := rfl
  have hbelow := hloop ⟨2, 0⟩ _ hself (by decide)
  refine ⟨rfl, rfl, .reply (p := ⟨0, 0⟩) (.root (by decide)) (by decide), hbelow _ .refl, ?_⟩
  exact hbelow _ (.single (show ⟨3, 0⟩ ∈ a.under (some ⟨2, 0⟩) by decide))

end Discussion.Arena
