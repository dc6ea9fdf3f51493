import Discussion.Arena.Basic

/-!
# The links of an arena

A node names its parent once, when it is inserted, and is then listed in at most one place: among the
roots, or among the replies to the node that it names. `label?` and `under` are these two views of an
arena, and `Coherent` says how they agree.

Results:
1. `label?_insert`, `under_insert`: what an insertion does to the two views.
2. `Coherent.insert`: an insertion keeps the arena coherent, whatever parent it names.
3. `Coherent.slot_lt`: below the roots, a reply stands in a later slot than the node above it. So
   nothing below the roots is its own reply, and links followed from a root come to an end.
-/

namespace Discussion.Arena

universe u

variable {α : Type u}

/-- The index is among the first `n` that an arena hands out. -/
def Index.Within (i : Index) (n : Nat) : Prop :=
  i.generation = 0 ∧ i.slot < n

instance (i : Index) (n : Nat) : Decidable (i.Within n) :=
  inferInstanceAs (Decidable (_ ∧ _))

/-- The item of a node with the parent that it names. -/
def label? (a : Arena α) (i : Index) : Option (α × Option Index) :=
  (a.get? i).map fun n => (n.item, n.parent)

/-- The indices listed directly under a place: the roots, or the replies to a node. -/
def under (a : Arena α) : Option Index → List Index
  | none => a.roots.toList
  | some p => (a.get? p).elim [] fun n => n.replies.toList

/-- The nodes listed under a place are those that name it and found it live, in the order of their
insertion. -/
structure Coherent (a : Arena α) : Prop where
  mem_under_iff : ∀ q i, i ∈ a.under q ↔
    ∃ x, a.label? i = some (x, q) ∧ ∀ p ∈ q, p.Within (i.slot + 1)
  sorted : ∀ q, (a.under q).Pairwise fun i j => i.slot < j.slot

/-- The index can be reached from the roots. -/
inductive Rooted (a : Arena α) : Index → Prop
  | root {i : Index} : i ∈ a.under none → Rooted a i
  | reply {p i : Index} : Rooted a p → i ∈ a.under (some p) → Rooted a i

/-! ## Look-ups -/

theorem isSome_get?_iff {a : Arena α} {i : Index} : (a.get? i).isSome ↔ i.Within a.size := by
  unfold get? Index.Within size
  split <;> simp_all

theorem Index.Within.succ {i : Index} {n : Nat} (h : i.Within n) : i.Within (n + 1) :=
  ⟨h.1, Nat.lt_succ_of_lt h.2⟩

theorem Index.Within.ne_nextIndex {a : Arena α} {i : Index} (h : i.Within a.size) :
    i ≠ a.nextIndex := by
  rintro rfl
  exact Nat.lt_irrefl _ h.2

theorem Index.Within.eq_of_slot_eq {i j : Index} {m n : Nat} (hi : i.Within m) (hj : j.Within n)
    (h : i.slot = j.slot) : i = j := by
  obtain ⟨slot, generation⟩ := i
  obtain ⟨rfl, _⟩ := hi
  obtain ⟨slot', generation'⟩ := j
  obtain ⟨rfl, _⟩ := hj
  cases h
  rfl

theorem nextIndex_within (a : Arena α) : a.nextIndex.Within (a.size + 1) :=
  ⟨rfl, Nat.lt_succ_self _⟩

theorem within_of_ne_nextIndex {a : Arena α} {i : Index} (h : i.Within (a.size + 1))
    (hne : i ≠ a.nextIndex) : i.Within a.size :=
  ⟨h.1, Nat.lt_of_le_of_ne (Nat.le_of_lt_succ h.2) fun heq =>
    hne (h.eq_of_slot_eq a.nextIndex_within heq)⟩

theorem get?_nextIndex (a : Arena α) : a.get? a.nextIndex = none := by
  simp [get?, nextIndex]

theorem label?_nextIndex (a : Arena α) : a.label? a.nextIndex = none := by
  rw [label?, get?_nextIndex, Option.map_none]

theorem within_of_label? {a : Arena α} {i : Index} {l : α × Option Index}
    (h : a.label? i = some l) : i.Within a.size := by
  obtain ⟨n, hn, _⟩ := Option.map_eq_some_iff.1 h
  exact isSome_get?_iff.1 (by rw [hn]; rfl)

theorem under_eq_nil {a : Arena α} {p : Index} (h : a.get? p = none) : a.under (some p) = [] := by
  rw [under, h]
  rfl

theorem under_eq_of_get? {a : Arena α} {p : Index} {n : Node α} (h : a.get? p = some n) :
    a.under (some p) = n.replies.toList := by
  rw [under, h]
  rfl

/-! ## Insertion -/

theorem get?_modify (a : Arena α) (p i : Index) (g : Node α → Node α) :
    (a.modify p g).get? i = if i = p then (a.get? i).map g else a.get? i := by
  obtain ⟨p, pg⟩ := p
  obtain ⟨i, ig⟩ := i
  by_cases hp : pg = 0
  · by_cases hi : ig = 0
    · simp only [modify, get?, hp, hi, if_true, Array.getElem?_modify, Index.mk.injEq, and_true,
        eq_comm]
    · simp [get?, hi]
  · by_cases h : i = p ∧ ig = pg
    · simp [get?, hp, h]
    · simp [modify, hp, h]

theorem get?_insert (a : Arena α) (x : α) (q : Option Index) (i : Index) :
    (a.insert x q).get? i =
      ((if i = a.nextIndex then some ⟨x, q, #[]⟩ else a.get? i).map fun n =>
        if q = some i then n.addReply a.nextIndex else n) := by
  have pushed (rs : Array Index) : get? ⟨a.nodes.push ⟨x, q, #[]⟩, rs⟩ i =
      if i = a.nextIndex then some ⟨x, q, #[]⟩ else a.get? i := by
    obtain ⟨i, ig⟩ := i
    by_cases hi : ig = 0 <;> simp [get?, nextIndex, Array.getElem?_push, hi]
  cases q with
  | none => simp [insert, pushed]
  | some p =>
    rw [insert, get?_modify, pushed]
    by_cases hp : i = p <;> simp [hp, eq_comm]

@[simp] theorem size_insert (a : Arena α) (x : α) (q : Option Index) :
    (a.insert x q).size = a.size + 1 := by
  cases q with
  | none => simp [insert, size]
  | some p =>
    simp only [insert, modify, size]
    split <;> simp

theorem label?_insert (a : Arena α) (x : α) (q : Option Index) (i : Index) :
    (a.insert x q).label? i = if i = a.nextIndex then some (x, q) else a.label? i := by
  have same (n : Node α) : ((if q = some i then n.addReply a.nextIndex else n).item,
      (if q = some i then n.addReply a.nextIndex else n).parent) = (n.item, n.parent) := by
    split <;> rfl
  rw [label?, get?_insert, Option.map_map, Function.comp_def]
  simp only [same]
  split <;> rfl

theorem roots_insert_some (a : Arena α) (x : α) (p : Index) :
    (a.insert x (some p)).roots = a.roots := by
  simp only [insert, modify]
  split <;> rfl

/-- The new index is put at the end of the list that its parent names, provided that the parent is
live by then. -/
theorem under_insert (a : Arena α) (x : α) (q r : Option Index) :
    (a.insert x q).under r =
      if q = r ∧ ∀ p ∈ r, p.Within (a.size + 1) then a.under r ++ [a.nextIndex]
      else a.under r := by
  cases r with
  | none =>
    cases q with
    | none => simp [under, insert]
    | some p => simp [under, roots_insert_some]
  | some r =>
    rw [under, get?_insert]
    by_cases hnew : r = a.nextIndex
    · subst hnew
      rw [if_pos rfl, under_eq_nil a.get?_nextIndex]
      by_cases hq : q = some a.nextIndex <;> simp [hq, nextIndex_within, Node.addReply]
    · rw [if_neg hnew]
      cases hr : a.get? r with
      | none =>
        have hdead : ¬ r.Within (a.size + 1) := fun h => by
          have := isSome_get?_iff.2 (within_of_ne_nextIndex h hnew)
          rw [hr] at this
          cases this
        simp [under_eq_nil hr, hdead]
      | some n =>
        have hlive : r.Within (a.size + 1) := (isSome_get?_iff.1 (by rw [hr]; rfl)).succ
        by_cases hq : q = some r <;> simp [under_eq_of_get? hr, hq, hlive, Node.addReply]

/-! ## Coherence -/

theorem coherent_empty : Coherent (empty : Arena α) where
  mem_under_iff q i := by cases q <;> simp [under, label?, get?, empty]
  sorted q := by cases q <;> simp [under, get?, empty]

theorem Coherent.within {a : Arena α} (h : a.Coherent) {q : Option Index} {i : Index}
    (hi : i ∈ a.under q) : i.Within a.size := by
  obtain ⟨x, hx, _⟩ := (h.mem_under_iff q i).1 hi
  exact within_of_label? hx

theorem Coherent.insert {a : Arena α} (h : a.Coherent) (x : α) (q : Option Index) :
    (a.insert x q).Coherent where
  mem_under_iff r i := by
    have hsplit : i ∈ (a.insert x q).under r ↔
        i ∈ a.under r ∨ i = a.nextIndex ∧ q = r ∧ ∀ p ∈ r, p.Within (a.size + 1) := by
      rw [under_insert]
      split
      · next hq => rw [List.mem_append, List.mem_singleton, and_iff_left hq]
      · next hq => exact ⟨.inl, fun h => h.elim id fun h => absurd h.2 hq⟩
    rw [hsplit, label?_insert, h.mem_under_iff]
    by_cases hi : i = a.nextIndex
    · subst hi
      rw [if_pos rfl, label?_nextIndex]
      constructor
      · rintro (⟨_, hx, _⟩ | ⟨_, rfl, hw⟩)
        · cases hx
        · exact ⟨x, rfl, hw⟩
      · rintro ⟨_, hx, hw⟩
        cases hx
        exact .inr ⟨rfl, rfl, hw⟩
    · simp [hi]
  sorted r := by
    rw [under_insert]
    split
    · refine List.pairwise_append.2 ⟨h.sorted r, List.pairwise_singleton _ _, fun i hi j hj => ?_⟩
      rw [List.mem_singleton.1 hj]
      exact (h.within hi).2
    · exact h.sorted r

theorem Coherent.place_unique {a : Arena α} (h : a.Coherent) {q r : Option Index} {i : Index}
    (hq : i ∈ a.under q) (hr : i ∈ a.under r) : q = r := by
  obtain ⟨x, hx, _⟩ := (h.mem_under_iff q i).1 hq
  obtain ⟨y, hy, _⟩ := (h.mem_under_iff r i).1 hr
  rw [hx] at hy
  cases hy
  rfl

/-! ## Below the roots -/

theorem Rooted.exists_place {a : Arena α} {i : Index} (h : a.Rooted i) : ∃ q, i ∈ a.under q := by
  cases h with
  | root h => exact ⟨none, h⟩
  | reply _ h => exact ⟨_, h⟩

theorem Coherent.not_mem_under_self {a : Arena α} (h : a.Coherent) {p : Index} (hp : a.Rooted p) :
    p ∉ a.under (some p) := by
  intro hself
  induction hp with
  | root hr => cases h.place_unique hr hself
  | reply _ hpi ih =>
    cases h.place_unique hpi hself
    exact ih hpi

theorem Coherent.slot_lt {a : Arena α} (h : a.Coherent) {p i : Index} (hp : a.Rooted p)
    (hi : i ∈ a.under (some p)) : p.slot < i.slot := by
  obtain ⟨x, _, hw⟩ := (h.mem_under_iff _ _).1 hi
  have hpw := hw p rfl
  refine Nat.lt_of_le_of_ne (Nat.le_of_lt_succ hpw.2) fun heq => ?_
  obtain rfl : p = i := hpw.eq_of_slot_eq (h.within hi) heq
  exact h.not_mem_under_self hp hi

end Discussion.Arena
