import Discussion.Post.Basic
import Discussion.Proofs.Threading.Weaving
import Discussion.Threading.Message

/-!
# What threading a list returns

`Forest.thread` builds the one forest that arranges the list, or says what is wrong with the list.

Results:
1. `Forest.thread_of_firstRepeat`, `Forest.thread_of_nodup`: the two ways in which it goes.
2. `Forest.thread_eq_ok_iff`, `Forest.thread_eq_duplicateId_iff`, `Forest.thread_eq_cycle_iff`: each
   result in terms of the list.
3. `Forest.flatten_perm`: what is returned has the items of the list, each of them once.
-/

namespace Discussion

universe u v

open Threaded

variable {α : Type u} {ι : Type v}

/-! ## Errors that are shown -/

namespace ThreadingError

variable [Inspect ι] {r : Except (ThreadingError ι) (Forest α)}

theorem inspected_eq_duplicateId_iff {d : String} :
    r.mapError inspected = .error (.duplicateId d) ↔
      ∃ i, r = .error (.duplicateId i) ∧ d = inspect i := by
  rcases r with (_ | _) | _ <;> simp [Except.mapError, inspected, eq_comm]

theorem inspected_eq_cycle_iff {c : String} :
    r.mapError inspected = .error (.cycle c) ↔
      ∃ i, r = .error (.cycle i) ∧ c = inspect i := by
  rcases r with (_ | _) | _ <;> simp [Except.mapError, inspected, eq_comm]

theorem inspected_eq_ok_iff {f : Forest α} :
    r.mapError inspected = .ok f ↔ r = .ok f := by
  rcases r with (_ | _) | _ <;> simp [Except.mapError]

theorem exists_inspected_eq_duplicateId_iff :
    (∃ d, r.mapError inspected = .error (.duplicateId d)) ↔
      ∃ i, r = .error (.duplicateId i) := by
  rcases r with (_ | _) | _ <;> simp [Except.mapError, inspected]

theorem exists_inspected_eq_cycle_iff :
    (∃ c, r.mapError inspected = .error (.cycle c)) ↔
      ∃ i, r = .error (.cycle i) := by
  rcases r with (_ | _) | _ <;> simp [Except.mapError, inspected]

end ThreadingError

/-! ## What the loop makes -/

variable [BEq ι] [LawfulBEq ι] [Hashable ι] [Threaded α ι] {xs : List α}

omit [LawfulBEq ι] in
/-- What the arena lists under an index are the items that belong under the item there. -/
theorem Weaving.Tracks.map_bare {places : Std.HashMap ι Nat} {placed : List Nat} {w : Weaving α}
    (h : Tracks (Plan.ofItems places xs) xs placed w) (hdone : w.todo = [])
    (located : Locates places xs) {ts us : List (Tree (Arena.Index × Arena.Node α))}
    (hts : w.arena.Unfolds ts) (hus : us ⊆ Tree.nodesAll ts) {q : Option Arena.Index}
    (hunder : us.map (·.item.1) = w.arena.under q) (hq : ∀ p ∈ q, p.Within w.arena.size) :
    (us.map Arena.bare).map Tree.item =
      xs.filter fun x => Plan.placeOf places x = q.bind (positionAt placed) := by
  refine List.map_injective_iff.2 (Option.some_injective α) ?_
  calc ((us.map Arena.bare).map Tree.item).map some
    _ = us.map fun t => some (Arena.bare t).item := by
      rw [List.map_map, List.map_map]
      rfl
    _ = us.map fun t => (w.arena.label? t.item.1).map Prod.fst :=
      List.map_congr_left fun t ht => (hts.label?_item (hus ht)).symm
    _ = (w.arena.under q).map fun i => (w.arena.label? i).map Prod.fst := by
      rw [← hunder, List.map_map]
      rfl
    _ = _ := by rw [h.map_under hdone hq, Plan.map_listAt located]

/-- At the end of the loop the arena holds a forest that arranges the list. -/
theorem Weaving.Tracks.arranges {places : Std.HashMap ι Nat} {placed : List Nat} {w : Weaving α}
    (h : Tracks (Plan.ofItems places xs) xs placed w) (hdone : w.todo = [])
    (located : Locates places xs) : w.arena.toForest.Arranges xs := by
  obtain ⟨ts, hts⟩ := h.coherent.exists_unfolds
  rw [hts.toForest_eq h.coherent]
  constructor
  · rw [← Plan.filter_placeOf_none located]
    exact h.map_bare hdone located hts (fun t => Tree.mem_nodesAll_of_mem) hts.roots
      (fun p hp => by cases hp)
  · intro t' ht'
    obtain ⟨t, ht, rfl⟩ : ∃ t ∈ Tree.nodesAll ts, Arena.bare t = t' := by
      rw [Forest.nodes, Arena.nodesAll_bare] at ht'
      exact List.mem_map.1 ht'
    have hwithin : t.item.1.Within w.arena.size :=
      Arena.isSome_get?_iff.1 (by rw [(hts.shows t ht).1]; rfl)
    obtain ⟨pos, hpos, hx⟩ := Option.bind_eq_some_iff.1
      ((h.items _ hwithin).symm.trans (hts.label?_item ht))
    have hreplies : (Arena.bare t).replies = t.replies.map Arena.bare := Tree.replies_relabel _ t
    rw [hreplies, ← Plan.filter_placeOf_some located hx, ← hpos]
    refine h.map_bare hdone located hts (fun r => Tree.reply_mem_nodesAll ht)
      (q := some t.item.1) (hts.shows t ht).2 (fun p hp => ?_)
    cases hp
    exact hwithin

namespace Forest

/-- If an identity occurs twice, the first one that was seen before is reported. -/
theorem thread_of_firstRepeat {x : α} (h : FirstRepeat xs x) :
    thread xs = .error (.duplicateId (Threaded.id x)) := by
  obtain ⟨before, after, rfl, distinct, hx⟩ := h
  have herror : positions ∅ 0 (before ++ x :: after) = .error (.duplicateId (Threaded.id x)) :=
    positions_eq_error locates_empty distinct hx
  rw [thread, herror]

omit [LawfulBEq ι] in
theorem thread_of_positions {places : Std.HashMap ι Nat} (h : positions ∅ 0 xs = .ok places) :
    thread xs =
      match ((Weaving.start (Plan.ofItems places xs) xs).run (Plan.ofItems places xs)).stranded? with
      | some x => .error (.cycle (Threaded.id x))
      | none => .ok
        ((Weaving.start (Plan.ofItems places xs) xs).run (Plan.ofItems places xs)).arena.toForest := by
  unfold thread
  generalize positions ∅ 0 xs = r at h
  subst h
  rfl

/-- If all identities are distinct, the first item that is not grounded is reported, or the forest that
arranges the list is returned. -/
theorem thread_of_nodup (distinct : (xs.map Threaded.id).Nodup) [DecidablePred (Grounded xs)] :
    ∃ f : Forest α, f.Arranges xs ∧ thread xs =
      match xs.find? fun x => ¬ Grounded xs x with
      | some x => .error (.cycle (Threaded.id x))
      | none => .ok f := by
  obtain ⟨places, hplaces, located⟩ :
      ∃ places, positions ∅ 0 xs = .ok places ∧ Locates places xs :=
    positions_eq_ok locates_empty distinct
  have sound := Plan.sound_ofItems located
  obtain ⟨placed, htracks, hdone⟩ := (Weaving.Tracks.start sound).run sound
  refine ⟨_, htracks.arranges hdone located, ?_⟩
  rw [thread_of_positions hplaces, htracks.stranded?_eq sound hdone fun c x =>
    Plan.leads_iff_grounded located]

theorem thread_of_firstStranded (distinct : (xs.map Threaded.id).Nodup) {x : α}
    (h : FirstStranded xs x) : thread xs = .error (.cycle (Threaded.id x)) := by
  classical
  obtain ⟨_, _, hthread⟩ := thread_of_nodup distinct
  rw [hthread, find?_eq_some_iff_firstStranded.2 h]

theorem thread_of_grounded (distinct : (xs.map Threaded.id).Nodup)
    (grounded : ∀ x ∈ xs, Grounded xs x) : ∃ f : Forest α, f.Arranges xs ∧ thread xs = .ok f := by
  classical
  obtain ⟨f, hf, hthread⟩ := thread_of_nodup distinct
  have hnone : (xs.find? fun x => ¬ Grounded xs x) = none :=
    List.find?_eq_none.2 fun x hx => by simpa using grounded x hx
  rw [hnone] at hthread
  exact ⟨f, hf, hthread⟩

/-- Threading reports a repeated identity, or else an item that is not grounded, or else succeeds. -/
theorem thread_cases (xs : List α) :
    (∃ x, FirstRepeat xs x ∧ thread xs = .error (.duplicateId (Threaded.id x))) ∨
      (xs.map Threaded.id).Nodup ∧
        ((∃ x, FirstStranded xs x ∧ thread xs = .error (.cycle (Threaded.id x))) ∨
          (∀ x ∈ xs, Grounded xs x) ∧ ∃ f : Forest α, f.Arranges xs ∧ thread xs = .ok f) := by
  rcases nodup_or_firstRepeat xs with distinct | ⟨x, hx⟩
  · refine .inr ⟨distinct, ?_⟩
    by_cases hstranded : ∃ x ∈ xs, ¬ Grounded xs x
    · obtain ⟨x, hx⟩ := exists_firstStranded_iff.2 hstranded
      exact .inl ⟨x, hx, thread_of_firstStranded distinct hx⟩
    · have grounded : ∀ x ∈ xs, Grounded xs x := by simpa using hstranded
      exact .inr ⟨grounded, thread_of_grounded distinct grounded⟩
  · exact .inl ⟨x, hx, thread_of_firstRepeat hx⟩

theorem thread_eq_ok_iff {f : Forest α} :
    thread xs = .ok f ↔
      (xs.map Threaded.id).Nodup ∧ (∀ x ∈ xs, Grounded xs x) ∧ f.Arranges xs := by
  constructor
  · intro hf
    rcases thread_cases xs with ⟨x, _, h⟩ | ⟨distinct, ⟨x, _, h⟩ | ⟨grounded, g, hg, h⟩⟩
    · rw [h] at hf
      cases hf
    · rw [h] at hf
      cases hf
    · rw [h] at hf
      cases hf
      exact ⟨distinct, grounded, hg⟩
  · rintro ⟨distinct, grounded, hf⟩
    obtain ⟨g, hg, h⟩ := thread_of_grounded distinct grounded
    rw [h, hf.unique hg]

/-- A forest that arranges the list and holds every item of it is what threading returns. -/
theorem Arranges.thread_eq {f : Forest α} (h : f.Arranges xs) (distinct : (xs.map Threaded.id).Nodup)
    (hall : ∀ x ∈ xs, ∃ t ∈ f.nodes, t.item = x) : thread xs = .ok f := by
  refine thread_eq_ok_iff.2 ⟨distinct, fun x hx => ?_, h⟩
  obtain ⟨t, ht, rfl⟩ := hall x hx
  exact (h.item_mem t ht).2

theorem thread_eq_duplicateId_iff {i : ι} :
    thread xs = .error (.duplicateId i) ↔ ∃ x, FirstRepeat xs x ∧ Threaded.id x = i := by
  constructor
  · intro he
    rcases thread_cases xs with ⟨x, hx, h⟩ | ⟨_, ⟨x, _, h⟩ | ⟨_, g, _, h⟩⟩
    · rw [h] at he
      cases he
      exact ⟨x, hx, rfl⟩
    · rw [h] at he
      cases he
    · rw [h] at he
      cases he
  · rintro ⟨x, hx, rfl⟩
    exact thread_of_firstRepeat hx

theorem thread_eq_cycle_iff {i : ι} :
    thread xs = .error (.cycle i) ↔
      (xs.map Threaded.id).Nodup ∧ ∃ x, FirstStranded xs x ∧ Threaded.id x = i := by
  constructor
  · intro he
    rcases thread_cases xs with ⟨x, _, h⟩ | ⟨distinct, ⟨x, hx, h⟩ | ⟨_, g, _, h⟩⟩
    · rw [h] at he
      cases he
    · rw [h] at he
      cases he
      exact ⟨distinct, x, hx, rfl⟩
    · rw [h] at he
      cases he
  · rintro ⟨distinct, x, hx, rfl⟩
    exact thread_of_firstStranded distinct hx

theorem exists_thread_eq_duplicateId_iff :
    (∃ i, thread xs = .error (.duplicateId i)) ↔ ¬ (xs.map Threaded.id).Nodup := by
  simp only [thread_eq_duplicateId_iff, ← exists_firstRepeat_iff]
  constructor
  · rintro ⟨_, x, hx, _⟩
    exact ⟨x, hx⟩
  · rintro ⟨x, hx⟩
    exact ⟨_, x, hx, rfl⟩

theorem exists_thread_eq_cycle_iff :
    (∃ i, thread xs = .error (.cycle i)) ↔
      (xs.map Threaded.id).Nodup ∧ ∃ x ∈ xs, ¬ Grounded xs x := by
  simp only [thread_eq_cycle_iff, ← exists_firstStranded_iff]
  constructor
  · rintro ⟨_, distinct, x, hx, _⟩
    exact ⟨distinct, x, hx⟩
  · rintro ⟨distinct, x, hx⟩
    exact ⟨_, distinct, x, hx, rfl⟩

theorem exists_thread_eq_ok_iff :
    (∃ f, thread xs = .ok f) ↔ (xs.map Threaded.id).Nodup ∧ ∀ x ∈ xs, Grounded xs x := by
  constructor
  · rintro ⟨f, hf⟩
    obtain ⟨distinct, grounded, _⟩ := thread_eq_ok_iff.1 hf
    exact ⟨distinct, grounded⟩
  · rintro ⟨distinct, grounded⟩
    obtain ⟨f, _, hf⟩ := thread_of_grounded distinct grounded
    exact ⟨f, hf⟩

/-- No item is lost, and none is made up. -/
theorem flatten_perm {f : Forest α} (h : thread xs = .ok f) : f.flatten.Perm xs := by
  obtain ⟨distinct, grounded, hf⟩ := thread_eq_ok_iff.1 h
  rw [flatten_eq]
  exact hf.items_perm distinct grounded

/-! ## Success -/

/-- A list of distinct items whose chains of parents all end is threaded into a forest that has the
starters at its roots, below every item the replies to it, and every item once. It is the only forest
of this kind, and what the replies picked out of the list, item by item, unfold to. -/
theorem thread_eq_grown (xs : List α) (distinct : (xs.map Threaded.id).Nodup)
    (grounded : ∀ x ∈ xs, Grounded xs x) :
    ∃ f, thread xs = .ok f ∧
      f.roots.map Tree.item = starters xs ∧
      (∀ t ∈ f.nodes, t.replies.map Tree.item = repliesTo xs (Threaded.id t.item)) ∧
      (f.nodes.map Tree.item).Perm xs ∧
      (∀ g : Forest α, g.Arranges xs → g = f) ∧
      (∃ tree : α → Tree α,
        ∀ x ∈ xs, tree x = .node x ((repliesTo xs (Threaded.id x)).map tree)) ∧
      (∀ tree : α → Tree α,
        (∀ x ∈ xs, tree x = .node x ((repliesTo xs (Threaded.id x)).map tree)) →
          f = ⟨(starters xs).map tree⟩) ∧
      f = grown xs := by
  obtain ⟨f, hf, hthread⟩ := thread_of_grounded distinct grounded
  refine ⟨f, hthread, hf.roots, hf.replies, hf.items_perm distinct grounded, fun g hg => hg.unique hf,
    ⟨_, fun x hx => hf.grow_eq_node distinct grounded hx⟩, fun tree => hf.eq_of_unfolding,
    hf.eq_grown distinct⟩

/-- A reply listed before the item it replies to, and an item whose parent is not in the list. -/
theorem thread_eq_grown_of_posts :
    thread [⟨2, some 1, "", none⟩, ⟨1, none, "", none⟩, ⟨3, some 9, "", none⟩] =
      .ok ⟨[.node (⟨1, none, "", none⟩ : Post) [.leaf ⟨2, some 1, "", none⟩],
        .leaf ⟨3, some 9, "", none⟩]⟩ := by
  let xs : List Post := [⟨2, some 1, "", none⟩, ⟨1, none, "", none⟩, ⟨3, some 9, "", none⟩]
  have first : Grounded xs ⟨1, none, "", none⟩ := .start (by decide)
  have grounded : ∀ x ∈ xs, Grounded xs x :=
    List.forall_mem_cons.2 ⟨.reply ⟨by decide, rfl⟩ first, List.forall_mem_cons.2 ⟨first,
      List.forall_mem_singleton.2 (.start (by decide))⟩⟩
  obtain ⟨f, hf, _, _, _, _, _, _, hgrown⟩ := thread_eq_grown xs (by decide) grounded
  rw [hf, hgrown]
  rfl

/-! ## Failure -/

theorem thread_inspected_eq_duplicateId_iff [Inspect ι] {d : String} :
    (thread xs).mapError ThreadingError.inspected = .error (.duplicateId d) ↔
      ∃ x, FirstRepeat xs x ∧ d = inspect (Threaded.id x) := by
  rw [ThreadingError.inspected_eq_duplicateId_iff]
  simp only [thread_eq_duplicateId_iff]
  constructor
  · rintro ⟨_, ⟨x, hx, rfl⟩, hd⟩
    exact ⟨x, hx, hd⟩
  · rintro ⟨x, hx, hd⟩
    exact ⟨_, ⟨x, hx, rfl⟩, hd⟩

theorem thread_inspected_eq_cycle_iff [Inspect ι] {c : String} :
    (thread xs).mapError ThreadingError.inspected = .error (.cycle c) ↔
      (xs.map Threaded.id).Nodup ∧ ∃ x, FirstStranded xs x ∧ c = inspect (Threaded.id x) := by
  rw [ThreadingError.inspected_eq_cycle_iff]
  simp only [thread_eq_cycle_iff]
  constructor
  · rintro ⟨_, ⟨distinct, x, hx, rfl⟩, hc⟩
    exact ⟨distinct, x, hx, hc⟩
  · rintro ⟨distinct, x, hx, hc⟩
    exact ⟨_, ⟨distinct, x, hx, rfl⟩, hc⟩

/-- Threading reports a repeated identity exactly if there is one, and then the first that was seen
before; otherwise an item that is not grounded exactly if there is one, and then the first of these. It
succeeds in all other cases, and then with every item of the list. -/
theorem thread_outcome [Inspect ι] (xs : List α) :
    ((∃ d, (thread xs).mapError ThreadingError.inspected = .error (.duplicateId d)) ↔
      ¬ (xs.map Threaded.id).Nodup) ∧
    (∀ d, (thread xs).mapError ThreadingError.inspected = .error (.duplicateId d) ↔
      ∃ x, FirstRepeat xs x ∧ d = inspect (Threaded.id x)) ∧
    ((∃ c, (thread xs).mapError ThreadingError.inspected = .error (.cycle c)) ↔
      (xs.map Threaded.id).Nodup ∧ ∃ x ∈ xs, ¬ Grounded xs x) ∧
    (∀ c, (thread xs).mapError ThreadingError.inspected = .error (.cycle c) ↔
      (xs.map Threaded.id).Nodup ∧ ∃ x, FirstStranded xs x ∧ c = inspect (Threaded.id x)) ∧
    ((xs.map Threaded.id).Nodup → ∀ x ∈ xs, ¬ Grounded xs x ↔
      ∃ y, Relation.ReflTransGen (Answers xs) x y ∧ Relation.TransGen (Answers xs) y y) ∧
    ((∃ f, (thread xs).mapError ThreadingError.inspected = .ok f) ↔
      (xs.map Threaded.id).Nodup ∧ ∀ x ∈ xs, Grounded xs x) ∧
    ∀ f, thread xs = .ok f → f.flatten.Perm xs := by
  refine ⟨ThreadingError.exists_inspected_eq_duplicateId_iff.trans exists_thread_eq_duplicateId_iff,
    fun d => thread_inspected_eq_duplicateId_iff,
    ThreadingError.exists_inspected_eq_cycle_iff.trans exists_thread_eq_cycle_iff,
    fun c => thread_inspected_eq_cycle_iff, fun distinct x => not_grounded_iff_cycle distinct, ?_,
    fun f => flatten_perm⟩
  simp only [ThreadingError.inspected_eq_ok_iff]
  exact exists_thread_eq_ok_iff

/-- An item below a cycle is listed before the cycle. -/
theorem thread_outcome_of_posts :
    (thread [(⟨4, some 1, "", none⟩ : Post), ⟨1, some 2, "", none⟩, ⟨2, some 1, "", none⟩]).mapError
      ThreadingError.inspected = .error (.cycle "4") := by
  let xs : List Post := [⟨4, some 1, "", none⟩, ⟨1, some 2, "", none⟩, ⟨2, some 1, "", none⟩]
  obtain ⟨_, _, _, hcycle, hbelow, _⟩ := thread_outcome xs
  have distinct : (xs.map Threaded.id).Nodup := by decide
  refine (hcycle "4").2 ⟨distinct, ⟨4, some 1, "", none⟩, ⟨[], _, rfl, nofun, ?_⟩, by rfl⟩
  refine (hbelow distinct _ (by decide)).2 ⟨⟨1, some 2, "", none⟩, .single ⟨by decide, rfl⟩, ?_⟩
  exact .tail (.single ⟨by decide, rfl⟩) (b := ⟨2, some 1, "", none⟩) ⟨by decide, rfl⟩

end Forest

end Discussion
