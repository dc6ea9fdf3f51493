import Discussion.Proofs.Threading.Lineage
import Discussion.Threading.Build

/-!
# Places and plans

What the first two passes over a list find out: where each identity is, and which positions stand
below which.

Results:
1. `positions_eq_ok`, `positions_eq_error`: distinct identities are all located; otherwise the first
   identity that was seen before is named.
2. `Plan.listAt_ofItems`, `Plan.map_listAt`: the plan lists under a place the positions of the items
   that belong there, in the order of the list.
3. `Plan.filter_placeOf_none`, `Plan.filter_placeOf_some`: these are the sibling groups of the list.
4. `Plan.leads_iff_grounded`: from the starters the plan leads to the items whose chain of parents ends.
-/

namespace Discussion

universe u v

variable {α : Type u} {ι : Type v} [Threaded α ι]

/-- The item is the first one whose identity was seen before it. -/
def Threaded.FirstRepeat (xs : List α) (x : α) : Prop :=
  ∃ before after, xs = before ++ x :: after ∧ (before.map Threaded.id).Nodup ∧
    Threaded.id x ∈ before.map Threaded.id

theorem Threaded.nodup_or_firstRepeat (xs : List α) :
    (xs.map Threaded.id).Nodup ∨ ∃ x, FirstRepeat xs x := by
  induction xs using List.reverseRecOn with
  | nil => exact .inl .nil
  | append_singleton xs x ih =>
    rcases ih with nodup | ⟨y, before, after, rfl, nodup, hy⟩
    · by_cases hx : Threaded.id x ∈ xs.map Threaded.id
      · exact .inr ⟨x, xs, [], rfl, nodup, hx⟩
      · refine .inl ?_
        rw [List.map_append]
        exact nodup.append (List.nodup_singleton _) (List.disjoint_singleton.2 hx)
    · exact .inr ⟨y, before, after ++ [x], by simp, nodup, hy⟩

theorem not_mem_of_nodup_append {before after : List α} {x : α}
    (distinct : ((before ++ x :: after).map Threaded.id).Nodup) :
    Threaded.id x ∉ before.map Threaded.id := by
  rw [List.map_append, List.nodup_append] at distinct
  exact fun hx => distinct.2.2 _ hx _ List.mem_cons_self rfl

theorem Threaded.FirstRepeat.not_nodup {xs : List α} {x : α} (h : FirstRepeat xs x) :
    ¬ (xs.map Threaded.id).Nodup := by
  obtain ⟨before, after, rfl, _, hx⟩ := h
  exact fun distinct => not_mem_of_nodup_append distinct hx

theorem Threaded.exists_firstRepeat_iff {xs : List α} :
    (∃ x, FirstRepeat xs x) ↔ ¬ (xs.map Threaded.id).Nodup := by
  constructor
  · rintro ⟨x, hx⟩
    exact hx.not_nodup
  · exact (nodup_or_firstRepeat xs).resolve_left

/-! ## Positions -/

/-- The map gives the position of each identity of the list. -/
def Locates [BEq ι] [Hashable ι] (places : Std.HashMap ι Nat) (xs : List α) : Prop :=
  ∀ i pos, places[i]? = some pos ↔ ∃ x : α, xs[pos]? = some x ∧ Threaded.id x = i

theorem getElem?_concat_eq_some {xs : List α} {x y : α} {pos : Nat}
    (h : (xs ++ [x])[pos]? = some y) : xs[pos]? = some y ∨ pos = xs.length ∧ x = y := by
  rw [List.getElem?_append] at h
  split at h
  · exact .inl h
  · obtain ⟨hpos, hx⟩ := List.getElem?_eq_some_iff.1 h
    rw [List.length_singleton] at hpos
    rw [List.getElem_singleton] at hx
    exact .inr ⟨by omega, hx⟩

variable [BEq ι] [Hashable ι]

section Positions

variable [LawfulBEq ι]

theorem locates_empty : Locates (∅ : Std.HashMap ι Nat) ([] : List α) := by
  intro i pos
  simp

theorem Locates.contains_iff {places : Std.HashMap ι Nat} {xs : List α} (h : Locates places xs)
    {i : ι} : places.contains i ↔ i ∈ xs.map Threaded.id := by
  rw [← Std.HashMap.isSome_getElem?_eq_contains, Option.isSome_iff_exists, List.mem_map]
  constructor
  · rintro ⟨pos, hpos⟩
    obtain ⟨x, hx, hi⟩ := (h i pos).1 hpos
    exact ⟨x, List.mem_of_getElem? hx, hi⟩
  · rintro ⟨x, hx, hi⟩
    obtain ⟨pos, hpos⟩ := List.getElem?_of_mem hx
    exact ⟨pos, (h i pos).2 ⟨x, hpos, hi⟩⟩

theorem Locates.insert {places : Std.HashMap ι Nat} {xs : List α} (h : Locates places xs) {x : α}
    (fresh : Threaded.id x ∉ xs.map Threaded.id) :
    Locates (places.insert (Threaded.id x) xs.length) (xs ++ [x]) := by
  intro i pos
  rw [Std.HashMap.getElem?_insert]
  by_cases hi : Threaded.id x = i
  · subst hi
    rw [if_pos (beq_self_eq_true _), Option.some.injEq]
    constructor
    · rintro rfl
      exact ⟨x, List.getElem?_concat_length, rfl⟩
    · rintro ⟨y, hy, hyx⟩
      rcases getElem?_concat_eq_some hy with hy | ⟨hpos, _⟩
      · exact absurd (List.mem_map.2 ⟨y, List.mem_of_getElem? hy, hyx⟩) fresh
      · exact hpos.symm
  · rw [if_neg (fun h => hi (beq_iff_eq.1 h)), h i pos]
    constructor
    · rintro ⟨y, hy, hyi⟩
      exact ⟨y, by rw [List.getElem?_append_left (List.getElem?_eq_some_iff.1 hy).1, hy], hyi⟩
    · rintro ⟨y, hy, hyi⟩
      rcases getElem?_concat_eq_some hy with hy | ⟨_, rfl⟩
      · exact ⟨y, hy, hyi⟩
      · exact absurd hyi hi

/-- The pass over the rest `xs` of a list of which `before` has been seen. -/
theorem positions_eq_ok {xs before : List α} {seen : Std.HashMap ι Nat} (h : Locates seen before)
    (distinct : ((before ++ xs).map Threaded.id).Nodup) :
    ∃ places, positions seen before.length xs = .ok places ∧ Locates places (before ++ xs) := by
  induction xs generalizing before seen with
  | nil => exact ⟨seen, rfl, by rwa [List.append_nil]⟩
  | cons x xs ih =>
    have fresh := not_mem_of_nodup_append distinct
    rw [List.append_cons] at distinct ⊢
    rw [positions, if_neg (h.contains_iff.not.2 fresh)]
    simpa using ih (h.insert fresh) distinct

theorem positions_eq_error {xs before after : List α} {x : α} {seen : Std.HashMap ι Nat}
    (h : Locates seen before) (distinct : ((before ++ xs).map Threaded.id).Nodup)
    (hx : Threaded.id x ∈ (before ++ xs).map Threaded.id) :
    positions seen before.length (xs ++ x :: after) = .error (.duplicateId (Threaded.id x)) := by
  induction xs generalizing before seen with
  | nil =>
    rw [List.append_nil] at hx
    rw [List.nil_append, positions, if_pos (h.contains_iff.2 hx)]
  | cons y xs ih =>
    have fresh := not_mem_of_nodup_append distinct
    rw [List.append_cons] at distinct hx
    rw [List.cons_append, positions, if_neg (h.contains_iff.not.2 fresh)]
    simpa using ih (h.insert fresh) distinct hx

end Positions

/-! ## Plans -/

namespace Plan

/-- The positions listed under a place: the starters, or the replies to a position. -/
def listAt (plan : Plan) : Option Nat → List Nat
  | none => plan.starters.toList
  | some pos => (plan.replies[pos]?.getD #[]).toList

/-- The position of the parent of an item, if the parent is located. -/
def placeOf (places : Std.HashMap ι Nat) (x : α) : Option Nat :=
  (Threaded.parent? x).bind (places[·]?)

/-- Every position below `size` is listed at most once, and no other one. -/
structure Sound (plan : Plan) (size : Nat) : Prop where
  bound : ∀ {q c}, c ∈ plan.listAt q → c < size
  distinct : ∀ q, (plan.listAt q).Nodup
  place_unique : ∀ {q r c}, c ∈ plan.listAt q → c ∈ plan.listAt r → q = r

/-- The position can be reached from the starters of the plan. -/
inductive Leads (plan : Plan) : Nat → Prop
  | start {c : Nat} : c ∈ plan.listAt none → Leads plan c
  | reply {p c : Nat} : Leads plan p → c ∈ plan.listAt (some p) → Leads plan c

theorem Leads.exists_place {plan : Plan} {c : Nat} (h : plan.Leads c) :
    ∃ q, c ∈ plan.listAt q := by
  cases h with
  | start h => exact ⟨none, h⟩
  | reply _ h => exact ⟨_, h⟩

theorem place_of_none {places : Std.HashMap ι Nat} {plan : Plan} {x : α} {pos : Nat}
    (h : placeOf places x = none) :
    plan.place places x pos = { plan with starters := plan.starters.push pos } := by
  rw [place, ← placeOf, h]

theorem place_of_some {places : Std.HashMap ι Nat} {plan : Plan} {x : α} {pos parent : Nat}
    (h : placeOf places x = some parent) :
    plan.place places x pos =
      { plan with replies := plan.replies.modify parent (·.push pos) } := by
  rw [place, ← placeOf, h]

theorem size_place (places : Std.HashMap ι Nat) (plan : Plan) (x : α) (pos : Nat) :
    (plan.place places x pos).replies.size = plan.replies.size := by
  cases h : placeOf places x with
  | none => rw [place_of_none h]
  | some parent => rw [place_of_some h, Array.size_modify]

theorem listAt_place {places : Std.HashMap ι Nat} {plan : Plan} {x : α} (pos : Nat)
    (h : ∀ p ∈ placeOf places x, p < plan.replies.size) (q : Option Nat) :
    (plan.place places x pos).listAt q =
      if placeOf places x = q then plan.listAt q ++ [pos] else plan.listAt q := by
  cases hx : placeOf places x with
  | none =>
    rw [place_of_none hx]
    cases q <;> simp [listAt]
  | some parent =>
    have hlt := h parent hx
    rw [place_of_some hx]
    cases q with
    | none => simp [listAt]
    | some p =>
      by_cases hp : parent = p
      · subst hp
        simp [listAt, Array.getElem?_modify, Array.getElem?_eq_getElem hlt]
      · simp [listAt, Array.getElem?_modify, hp]

theorem listAt_foldl_place {places : Std.HashMap ι Nat} (zs : List (α × Nat)) {plan : Plan}
    (h : ∀ z ∈ zs, ∀ p ∈ placeOf places z.1, p < plan.replies.size) (q : Option Nat) :
    (zs.foldl (fun plan (x, pos) => plan.place places x pos) plan).listAt q =
      plan.listAt q ++ (zs.filter fun z => placeOf places z.1 = q).map (·.2) := by
  induction zs generalizing plan with
  | nil => simp
  | cons z zs ih =>
    have hz := h z List.mem_cons_self
    have hzs : ∀ z' ∈ zs, ∀ p ∈ placeOf places z'.1,
        p < (plan.place places z.1 z.2).replies.size := fun z' hz' p hp => by
      rw [size_place]
      exact h z' (List.mem_cons_of_mem _ hz') p hp
    rw [List.foldl_cons, ih hzs, listAt_place z.2 hz]
    by_cases hq : placeOf places z.1 = q <;> simp [hq]

theorem size_ofItems (places : Std.HashMap ι Nat) (xs : List α) :
    (ofItems places xs).replies.size = xs.length := by
  have size_foldl (zs : List (α × Nat)) (plan : Plan) :
      (zs.foldl (fun plan (x, pos) => plan.place places x pos) plan).replies.size =
        plan.replies.size := by
    induction zs generalizing plan with
    | nil => rfl
    | cons z zs ih => rw [List.foldl_cons, ih, size_place]
  rw [ofItems, size_foldl, blank, Array.size_replicate]

theorem listAt_blank (size : Nat) (q : Option Nat) : (blank size).listAt q = [] := by
  cases q with
  | none => rfl
  | some pos =>
    rw [listAt, blank, Array.getElem?_replicate]
    split <;> rfl

variable {places : Std.HashMap ι Nat} {xs : List α}

/-- Under each place stand the positions of the items that belong there, in the order of the list. -/
theorem listAt_ofItems (h : Locates places xs) (q : Option Nat) :
    (ofItems places xs).listAt q =
      (xs.zipIdx.filter fun z => placeOf places z.1 = q).map (·.2) := by
  have blank_size : (blank xs.length).replies.size = xs.length := Array.size_replicate
  rw [ofItems, listAt_foldl_place]
  · rw [listAt_blank, List.nil_append]
  · intro z _ p hp
    obtain ⟨i, _, hi⟩ := Option.bind_eq_some_iff.1 hp
    obtain ⟨y, hy, _⟩ := (h i p).1 hi
    rw [blank_size]
    exact (List.getElem?_eq_some_iff.1 hy).1

theorem mem_listAt (h : Locates places xs) {q : Option Nat} {pos : Nat} :
    pos ∈ (ofItems places xs).listAt q ↔ ∃ x, xs[pos]? = some x ∧ placeOf places x = q := by
  rw [listAt_ofItems h, List.mem_map]
  constructor
  · rintro ⟨⟨x, _⟩, hz, rfl⟩
    obtain ⟨hmem, hq⟩ := List.mem_filter.1 hz
    exact ⟨x, List.mem_zipIdx_iff_getElem?.1 hmem, decide_eq_true_iff.1 hq⟩
  · rintro ⟨x, hx, hq⟩
    exact ⟨(x, pos), List.mem_filter.2 ⟨List.mem_zipIdx_iff_getElem?.2 hx, decide_eq_true hq⟩, rfl⟩

theorem nodup_listAt (h : Locates places xs) (q : Option Nat) :
    ((ofItems places xs).listAt q).Nodup := by
  have hall : (xs.zipIdx.map Prod.snd).Nodup := by
    rw [List.zipIdx_map_snd]
    exact List.nodup_range'
  rw [listAt_ofItems h]
  exact (List.filter_sublist.map _).nodup hall

/-- The items under a place are those that belong there. -/
theorem map_listAt (h : Locates places xs) (q : Option Nat) :
    ((ofItems places xs).listAt q).map (xs[·]?) =
      (xs.filter fun x => placeOf places x = q).map some := by
  have item_at : ∀ z ∈ xs.zipIdx.filter fun z => placeOf places z.1 = q,
      xs[z.2]? = some z.1 := fun z hz =>
    List.mem_zipIdx_iff_getElem?.1 (List.mem_filter.1 hz).1
  have items : xs.filter (fun x => placeOf places x = q) =
      (xs.zipIdx.filter fun z => placeOf places z.1 = q).map Prod.fst := by
    conv_lhs => rw [← List.zipIdx_map_fst 0 xs, List.filter_map]
    rfl
  rw [listAt_ofItems h, items, List.map_map, List.map_map]
  exact List.map_congr_left item_at

theorem placeOf_eq_some_iff (h : Locates places xs) {x : α} {pos : Nat} :
    placeOf places x = some pos ↔
      ∃ y, xs[pos]? = some y ∧ Threaded.parent? x = some (Threaded.id y) := by
  rw [placeOf, Option.bind_eq_some_iff]
  constructor
  · rintro ⟨i, hi, hpos⟩
    obtain ⟨y, hy, rfl⟩ := (h i pos).1 hpos
    exact ⟨y, hy, hi⟩
  · rintro ⟨y, hy, hi⟩
    exact ⟨Threaded.id y, hi, (h _ pos).2 ⟨y, hy, rfl⟩⟩

variable [LawfulBEq ι]

theorem placeOf_eq_none_iff (h : Locates places xs) {x : α} :
    placeOf places x = none ↔ Threaded.starts xs x := by
  rw [Threaded.starts_iff, Option.eq_none_iff_forall_ne_some]
  constructor
  · rintro hnone y ⟨hy, hi⟩
    obtain ⟨pos, hpos⟩ := List.getElem?_of_mem hy
    exact hnone pos ((placeOf_eq_some_iff h).2 ⟨y, hpos, hi⟩)
  · intro hno pos hpos
    obtain ⟨y, hy, hi⟩ := (placeOf_eq_some_iff h).1 hpos
    exact hno y ⟨List.mem_of_getElem? hy, hi⟩

theorem filter_placeOf_none (h : Locates places xs) :
    (xs.filter fun x => placeOf places x = none) = Threaded.starters xs := by
  refine List.filter_congr fun x _ => ?_
  rw [Bool.eq_iff_iff, decide_eq_true_iff, placeOf_eq_none_iff h]

theorem filter_placeOf_some (h : Locates places xs) {pos : Nat} {y : α} (hy : xs[pos]? = some y) :
    (xs.filter fun x => placeOf places x = some pos) =
      Threaded.repliesTo xs (Threaded.id y) := by
  refine List.filter_congr fun x _ => ?_
  rw [Bool.eq_iff_iff, decide_eq_true_iff, beq_iff_eq, placeOf_eq_some_iff h]
  simp [hy]

/-! ## Where a plan leads -/

omit [LawfulBEq ι] in
theorem sound_ofItems (h : Locates places xs) : (ofItems places xs).Sound xs.length where
  bound hc := by
    obtain ⟨x, hx, _⟩ := (mem_listAt h).1 hc
    exact (List.getElem?_eq_some_iff.1 hx).1
  distinct := nodup_listAt h
  place_unique hq hr := by
    obtain ⟨x, hx, rfl⟩ := (mem_listAt h).1 hq
    obtain ⟨y, hy, rfl⟩ := (mem_listAt h).1 hr
    rw [hx] at hy
    cases hy
    rfl

/-- The plan leads to the items whose chain of parents ends. -/
theorem leads_iff_grounded (h : Locates places xs) {c : Nat} {x : α} (hx : xs[c]? = some x) :
    (ofItems places xs).Leads c ↔ Threaded.Grounded xs x := by
  constructor
  · intro hlead
    induction hlead generalizing x with
    | start hc =>
      obtain ⟨y, hy, hplace⟩ := (mem_listAt h).1 hc
      rw [hx] at hy
      cases hy
      exact .start ((placeOf_eq_none_iff h).1 hplace)
    | reply _ hc ih =>
      obtain ⟨y, hy, hplace⟩ := (mem_listAt h).1 hc
      rw [hx] at hy
      cases hy
      obtain ⟨z, hz, hparent⟩ := (placeOf_eq_some_iff h).1 hplace
      exact .reply ⟨List.mem_of_getElem? hz, hparent⟩ (ih hz)
  · intro hground
    induction hground generalizing c with
    | start hs => exact .start ((mem_listAt h).2 ⟨_, hx, (placeOf_eq_none_iff h).2 hs⟩)
    | reply hy _ ih =>
      obtain ⟨p, hp⟩ := List.getElem?_of_mem hy.1
      exact .reply (ih hp) ((mem_listAt h).2 ⟨_, hx, (placeOf_eq_some_iff h).2 ⟨_, hp, hy.2⟩⟩)

end Plan

end Discussion
