import Mathlib.Data.List.Chain
import Mathlib.Order.MinMax
import Std.Data.String.ToNat
import Discussion.Proofs.Tree.Assembly
import Discussion.Tree.Data

/-!
# Forests and their listings

The pre-order listing of a forest determines it, and any list of entries, whatever its depths, is the
listing of a forest once its depths have been settled.

Results:
1. `Tree.listOfPreorder_listing`: trees come back from their listing.
2. `Tree.map_eq_relabel`, `Forest.map_eq_relabel`: items are changed in their places.
3. `Forest.ofPreorder_entries`: what is made of listings tells forests apart.
4. `Forest.ofPreorder_settled`: the listing of the forest that a list of entries describes, and when two
   lists describe the same one.
-/

namespace Discussion

universe u v

variable {α : Type u} {β : Type v}

theorem eq_iff_map_fst_snd {es fs : List (α × β)} :
    es = fs ↔ es.map Prod.fst = fs.map Prod.fst ∧ es.map Prod.snd = fs.map Prod.snd := by
  constructor
  · rintro rfl
    exact ⟨rfl, rfl⟩
  · rintro ⟨hfst, hsnd⟩
    exact (List.zip_of_prod hfst hsnd).trans (List.zip_of_prod rfl rfl).symm

/-! ## From a forest to its listing and back -/

namespace Tree

theorem listOfPreorder_listing (ts : List (Tree α)) : listOfPreorder (listing 0 ts) = ts := by
  rw [listOfPreorder, Assembly.finish, Assembly.counted_empty.closeTo_foldl_push ts (Nat.zero_le _)]
  exact (congrArg List.reverse (List.append_nil ts.reverse)).trans (List.reverse_reverse ts)

theorem listing_inj {ts us : List (Tree α)} : listing 0 ts = listing 0 us ↔ ts = us := by
  constructor
  · intro h
    rw [← listOfPreorder_listing ts, h, listOfPreorder_listing]
  · rintro rfl
    rfl

theorem entries_inj {t u : Tree α} : t.entries = u.entries ↔ t = u := by
  rw [entries_eq, entries_eq, listing_inj, List.singleton_inj]

mutual

theorem levels_relabel (g : α → β) : ∀ (level : Nat) (t : Tree α),
    (t.relabel g).levels level = (t.levels level).map fun v => (v.1, v.2.relabel g)
  | level, node x ts => by
    rw [levels_eq, levels_eq, replies_relabel, replies_node, levelsAll_relabel g (level + 1) ts,
      List.map_cons]

theorem levelsAll_relabel (g : α → β) : ∀ (level : Nat) (ts : List (Tree α)),
    levelsAll level (ts.map (relabel g)) = (levelsAll level ts).map fun v => (v.1, v.2.relabel g)
  | _, [] => rfl
  | level, t :: ts => by
    rw [List.map_cons, levelsAll, levelsAll, List.map_append, levels_relabel g level t,
      levelsAll_relabel g level ts]

end

theorem listing_relabel (g : α → β) (level : Nat) (ts : List (Tree α)) :
    listing level (ts.map (relabel g)) = (listing level ts).map fun e => (e.1, g e.2) := by
  simp [listing, levelsAll_relabel, Function.comp_def]

/-- Changing the items of the listing changes the items in their places. -/
theorem listOfPreorder_map (g : α → β) (ts : List (Tree α)) :
    listOfPreorder ((listing 0 ts).map fun e => (e.1, g e.2)) = ts.map (relabel g) := by
  rw [← listing_relabel, listOfPreorder_listing]

theorem map_eq_relabel (g : α → β) (t : Tree α) : t.map g = t.relabel g := by
  obtain ⟨x, ts⟩ := t
  -- the root is copied by itself, only what is below it goes through a listing
  have hlisting : (Walk.ofTrees ts).toList.map (fun v => (v.1, g v.2.item)) =
      (listing 0 ts).map fun e => (e.1, g e.2) := by
    rw [Walk.toList_ofTrees, listing, List.map_map]
    rfl
  rw [map, item_node, replies_node, hlisting, listOfPreorder_map, ← relabelAll_eq_map]
  rfl

theorem relabel_id (t : Tree α) : t.relabel id = t := by
  induction t with
  | node x ts ih =>
    rw [relabel, relabelAll_eq_map, List.map_congr_left ih, List.map_id']
    rfl

end Tree

namespace Forest

theorem entries_eq_listing (f : Forest α) : f.entries = Tree.listing 0 f.roots :=
  f.entries_eq

theorem ofPreorder_listing (f : Forest α) : ofPreorder f.entries = f := by
  rw [entries_eq_listing, ofPreorder, Tree.listOfPreorder_listing]

theorem entries_inj {f g : Forest α} : f.entries = g.entries ↔ f = g := by
  obtain ⟨ts⟩ := f
  obtain ⟨us⟩ := g
  rw [entries_eq_listing, entries_eq_listing, Tree.listing_inj, Forest.mk.injEq]

theorem items_eq_map_entries (f : Forest α) : f.items = f.entries.map Prod.snd := by
  rw [items, entries, List.map_map]
  rfl

theorem map_eq_relabel (g : α → β) (f : Forest α) : f.map g = ⟨f.roots.map (Tree.relabel g)⟩ := by
  rw [map, entries_eq_listing, ofPreorder, Tree.listOfPreorder_map]

end Forest

/-! ## Comparing, showing and writing -/

instance [BEq α] [LawfulBEq α] : LawfulBEq (Tree α) where
  eq_of_beq h := Tree.entries_inj.1 (eq_of_beq h)
  rfl {t} := beq_self_eq_true t.entries

instance [BEq α] [LawfulBEq α] : LawfulBEq (Forest α) where
  eq_of_beq {f g} h := by
    obtain ⟨ts⟩ := f
    obtain ⟨us⟩ := g
    exact congrArg Forest.mk (eq_of_beq h)
  rfl {f} := beq_self_eq_true f.roots

theorem shown_nat_injective : Function.Injective (shown : Nat → Shown) := by
  intro m n h
  exact Nat.repr_injective (Shown.atom.inj h)

theorem shown_list_injective [Inspect α] (h : Function.Injective (shown : α → Shown)) :
    Function.Injective (shown : List α → Shown) := by
  intro xs ys hxs
  exact h.list_map (Shown.group.inj hxs).2.2.2

theorem shown_pair_injective [Inspect α] [Inspect β] (hα : Function.Injective (shown : α → Shown))
    (hβ : Function.Injective (shown : β → Shown)) :
    Function.Injective (shown : α × β → Shown) := by
  rintro ⟨x, y⟩ ⟨x', y'⟩ h
  obtain ⟨hx, hy⟩ := List.cons.inj (Shown.group.inj h).2.2.2
  exact Prod.ext (hα hx) (hβ (List.singleton_inj.1 hy))

/-- A tree is shown as its listing, so trees that are shown alike are the same. -/
theorem Tree.shown_injective [Inspect α] (h : Function.Injective (shown : α → Shown)) :
    Function.Injective (shown : Tree α → Shown) := by
  intro t u htu
  exact entries_inj.1 (shown_list_injective (shown_pair_injective shown_nat_injective h) htu)

theorem Forest.shown_injective [Inspect α] (h : Function.Injective (shown : α → Shown)) :
    Function.Injective (shown : Forest α → Shown) := by
  rintro ⟨ts⟩ ⟨us⟩ hts
  obtain ⟨hroots, _⟩ := List.cons.inj (Shown.group.inj hts).2.2.2
  exact congrArg Forest.mk (shown_list_injective (Tree.shown_injective h) (Shown.named.inj hroots).2)

theorem entryData_injective {item : α → Data} (h : Function.Injective item) :
    Function.Injective (entryData item) := by
  rintro ⟨d, x⟩ ⟨e, y⟩ hxy
  simp only [entryData, Data.record.injEq, List.cons.injEq, Prod.mk.injEq, Data.integer.injEq,
    true_and, and_true] at hxy
  exact Prod.ext (Int.ofNat_inj.1 hxy.1) (h hxy.2)

theorem Forest.toData_injective {item : α → Data} (h : Function.Injective item) :
    Function.Injective (Forest.toData item) := by
  intro f g hfg
  exact entries_inj.1 ((entryData_injective h).list_map (Data.list.inj hfg))

namespace Forest

/-- A forest comes back from its listing, and so does a tree. So the listing tells forests apart, and so
does all that is made of it: comparison, copies, and the forms in which a forest is shown and written,
if they tell the items apart. -/
theorem ofPreorder_entries :
    (∀ f : Forest α, ofPreorder f.entries = f ∧ f.map id = f) ∧
    (∀ t : Tree α, Tree.listOfPreorder t.entries = [t] ∧ t.map id = t) ∧
    (∀ f g : Forest α, f.entries = g.entries ↔ f = g) ∧
    (∀ t u : Tree α, t.entries = u.entries ↔ t = u) ∧
    (∀ [BEq α] [LawfulBEq α] (f g : Forest α), (f == g) = true ↔ f = g) ∧
    (∀ [Inspect α], Function.Injective (shown : α → Shown) →
      ∀ f g : Forest α, shown f = shown g ↔ f = g) ∧
    ∀ item : α → Data, Function.Injective item →
      ∀ f g : Forest α, f.toData item = g.toData item ↔ f = g := by
  refine ⟨fun f => ⟨?_, ?_⟩, fun t => ⟨?_, ?_⟩, fun f g => entries_inj, fun t u => Tree.entries_inj,
    fun f g => beq_iff_eq, fun h f g => (shown_injective h).eq_iff,
    fun item h f g => (toData_injective h).eq_iff⟩
  · rw [entries_eq_listing, ofPreorder, Tree.listOfPreorder_listing]
  · rw [map_eq_relabel, List.map_congr_left fun t _ => t.relabel_id, List.map_id']
  · rw [Tree.entries_eq, Tree.listOfPreorder_listing]
  · rw [Tree.map_eq_relabel, Tree.relabel_id]

/-- Two forests with the same items in pre-order, and different nesting. -/
theorem ofPreorder_entries_of_numbers :
    let nested : Forest Nat := ⟨[.node 1 [.node 2 [.leaf 3]], .leaf 4]⟩
    let flat : Forest Nat := ⟨[.node 1 [.leaf 2, .leaf 3], .leaf 4]⟩
    nested.items = flat.items ∧ nested.entries = [(0, 1), (1, 2), (2, 3), (0, 4)] ∧
      ofPreorder [(0, 1), (1, 2), (2, 3), (0, 4)] = nested ∧ (nested == flat) = false ∧
      shown nested ≠ shown flat ∧
      nested.toData (fun n => .integer (.ofNat n)) ≠ flat.toData fun n => .integer (.ofNat n) := by
  intro nested flat
  obtain ⟨hforest, _, hentries, _, hbeq, hshown, hdata⟩ := ofPreorder_entries (α := Nat)
  have hnested : nested.entries = [(0, 1), (1, 2), (2, 3), (0, 4)] := nested.entries_eq
  have hflat : flat.entries = [(0, 1), (1, 2), (1, 3), (0, 4)] := flat.entries_eq
  have hne : nested ≠ flat := by
    rw [Ne, ← hentries, hnested, hflat]
    decide
  have hinteger : Function.Injective fun n : Nat => Data.integer (.ofNat n) := fun _ _ h =>
    Int.ofNat_inj.1 (Data.integer.inj h)
  refine ⟨?_, hnested, hnested ▸ (hforest nested).1, ?_, ?_, ?_⟩
  · rw [items_eq_map_entries, items_eq_map_entries, hnested, hflat]
    rfl
  · rwa [← Bool.not_eq_true, hbeq]
  · rwa [Ne, hshown shown_nat_injective]
  · rwa [Ne, hdata _ hinteger]

end Forest

/-! ## Settled depths -/

theorem length_settleFrom (room : Nat) (ds : List Nat) :
    (settleFrom room ds).length = ds.length := by
  induction ds generalizing room with
  | nil => rfl
  | cons d ds ih => rw [settleFrom, List.length_cons, ih, List.length_cons]

theorem getElem?_settleFrom_zero (room : Nat) (ds : List Nat) :
    (settleFrom room ds)[0]? = ds[0]?.map fun d => min d room := by
  cases ds <;> rfl

/-- An entry goes to its own depth, or directly below the entry before it. -/
theorem getElem?_settleFrom_succ {room : Nat} {ds : List Nat} {i d e : Nat}
    (hd : ds[i + 1]? = some d) (he : (settleFrom room ds)[i]? = some e) :
    (settleFrom room ds)[i + 1]? = some (min d (e + 1)) := by
  induction i generalizing room ds with
  | zero =>
    cases ds with
    | nil => cases hd
    | cons c ds =>
      cases he
      rw [settleFrom, List.getElem?_cons_succ, getElem?_settleFrom_zero, ← List.getElem?_cons_succ, hd]
      rfl
  | succ i ih =>
    cases ds with
    | nil => cases hd
    | cons c ds => exact ih hd he

/-- The depths begin no deeper than `room` and never go deeper by more than one. -/
def SteadyFrom (room : Nat) (ds : List Nat) : Prop :=
  (∀ d ∈ ds.head?, d ≤ room) ∧ ds.IsChain fun d e => e ≤ d + 1

theorem settleFrom_eq_self_iff {room : Nat} {ds : List Nat} :
    settleFrom room ds = ds ↔ SteadyFrom room ds := by
  induction ds generalizing room with
  | nil => simp [settleFrom, SteadyFrom]
  | cons d ds ih =>
    rw [settleFrom, List.cons.injEq, min_eq_left_iff, SteadyFrom, List.isChain_cons, List.head?_cons]
    constructor
    · rintro ⟨hd, hds⟩
      rw [Nat.min_eq_left hd] at hds
      exact ⟨fun _ h => Option.mem_some.1 h ▸ hd, ih.1 hds⟩
    · rintro ⟨hd, hds⟩
      have hd := hd d rfl
      rw [Nat.min_eq_left hd]
      exact ⟨hd, ih.2 hds⟩

/-- Before an entry come entries of every depth between its own and the room at the beginning. -/
theorem SteadyFrom.mem_of_lt {room d k : Nat} {before after : List Nat}
    (h : SteadyFrom room (before ++ d :: after)) (hroom : room ≤ k) (hk : k < d) : k ∈ before := by
  induction before generalizing room with
  | nil =>
    have hd := h.1 d rfl
    omega
  | cons c before ih =>
    have hc : c ≤ room := h.1 c rfl
    have hchain := List.isChain_cons.1 h.2
    by_cases hkc : k = c
    · exact hkc ▸ List.mem_cons_self
    · exact List.mem_cons_of_mem c (ih ⟨hchain.1, hchain.2⟩ (by omega))

namespace Forest

theorem entries_ofPreorder (es : List (Nat × α)) : (ofPreorder es).entries =
    (settleFrom 0 (es.map Prod.fst)).zip (es.map Prod.snd) := by
  rw [entries_eq_listing, ofPreorder, Tree.listOfPreorder,
    (Assembly.counted_empty.foldl_push es).listing_finish, Assembly.counted_empty.listing_foldl_push]
  rfl

theorem map_fst_entries_ofPreorder (es : List (Nat × α)) :
    (ofPreorder es).entries.map Prod.fst = settleFrom 0 (es.map Prod.fst) := by
  rw [entries_ofPreorder, List.map_fst_zip]
  rw [length_settleFrom, List.length_map, List.length_map]

theorem map_snd_entries_ofPreorder (es : List (Nat × α)) :
    (ofPreorder es).entries.map Prod.snd = es.map Prod.snd := by
  rw [entries_ofPreorder, List.map_snd_zip]
  rw [length_settleFrom, List.length_map, List.length_map]

theorem steady_entries (f : Forest α) : SteadyFrom 0 (f.entries.map Prod.fst) := by
  rw [← settleFrom_eq_self_iff, ← map_fst_entries_ofPreorder, ofPreorder_listing]

theorem ofPreorder_eq_iff {es fs : List (Nat × α)} :
    ofPreorder es = ofPreorder fs ↔ es.map Prod.snd = fs.map Prod.snd ∧
      settleFrom 0 (es.map Prod.fst) = settleFrom 0 (fs.map Prod.fst) := by
  rw [← entries_inj, eq_iff_map_fst_snd, map_fst_entries_ofPreorder, map_fst_entries_ofPreorder,
    map_snd_entries_ofPreorder, map_snd_entries_ofPreorder, and_comm]

/-- Whatever depths the entries of a list have, its forest has their items, in their order, and each one
at its own depth or directly below the item before it. So a list is the listing of its forest exactly if
it begins at depth 0 and never goes deeper by more than one, and two lists have one forest exactly if
they have the same items and the same settled depths. -/
theorem ofPreorder_settled :
    (∀ es : List (Nat × α),
      (ofPreorder es).items = es.map Prod.snd ∧
      (ofPreorder es).entries = (settleFrom 0 (es.map Prod.fst)).zip (es.map Prod.snd) ∧
      ((ofPreorder es).entries = es ↔ SteadyFrom 0 (es.map Prod.fst))) ∧
    (∀ ds, (settleFrom 0 ds).length = ds.length ∧ (∀ e ∈ (settleFrom 0 ds)[0]?, e = 0) ∧
      ∀ i d e, ds[i + 1]? = some d → (settleFrom 0 ds)[i]? = some e →
        (settleFrom 0 ds)[i + 1]? = some (min d (e + 1))) ∧
    ∀ es fs : List (Nat × α), ofPreorder es = ofPreorder fs ↔
      es.map Prod.snd = fs.map Prod.snd ∧
        settleFrom 0 (es.map Prod.fst) = settleFrom 0 (fs.map Prod.fst) := by
  refine ⟨fun es => ⟨?_, entries_ofPreorder es, ?_⟩, fun ds => ⟨length_settleFrom 0 ds, ?_, ?_⟩,
    fun es fs => ofPreorder_eq_iff⟩
  · rw [items_eq_map_entries, map_snd_entries_ofPreorder]
  · rw [eq_iff_map_fst_snd, map_fst_entries_ofPreorder, map_snd_entries_ofPreorder,
      eq_self, and_true, settleFrom_eq_self_iff]
  · intro e he
    rw [getElem?_settleFrom_zero] at he
    obtain ⟨d, _, rfl⟩ := Option.mem_map.1 he
    exact Nat.min_zero d
  · intro i d e
    exact getElem?_settleFrom_succ

/-- A listing that begins too deep, goes down by more than one, and comes back to the roots. -/
theorem ofPreorder_settled_of_numbers :
    (ofPreorder [(2, 10), (5, 20), (9, 30), (1, 40), (0, 50), (7, 60)]).entries =
      [(0, 10), (1, 20), (2, 30), (1, 40), (0, 50), (1, 60)] ∧
    ofPreorder [(2, 10), (5, 20), (9, 30), (1, 40), (0, 50), (7, 60)] =
      ofPreorder [(0, 10), (1, 20), (2, 30), (1, 40), (0, 50), (1, 60)] ∧
    (settleFrom 0 [2, 5, 9])[2]? = some 2 := by
  obtain ⟨hentries, hdepths, heq⟩ := ofPreorder_settled (α := Nat)
  refine ⟨(hentries _).2.1, (heq _ _).2 (by decide), ?_⟩
  exact (hdepths [2, 5, 9]).2.2 1 9 1 rfl rfl

end Forest

end Discussion
