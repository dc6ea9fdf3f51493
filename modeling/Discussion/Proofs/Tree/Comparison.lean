import Mathlib.Data.List.Forall2
import Discussion.Proofs.Tree.Listing
import Discussion.Tree.Path

/-!
# Comparing and copying trees

Trees are compared and copied by their listings. Here this is said position by position, for items with
any comparison at all: it may hold an item different from itself, or two different items the same.

* `Tree.shape t`: the tree without its items.
* `Tree.Matches R t u`: the items at the roots are related, and the replies match, one by one.

Two trees of one shape are the two sides of a tree of pairs. There every way of comparing them says the
same: that the pair at each node is related.

Results:
1. `Tree.exists_pair`: two trees of one shape are the sides of a tree of pairs.
2. `Tree.matches_iff_get?`, `Tree.forall₂_listing_iff`: trees match if they are compared at all positions,
   or along their listings.
3. `Tree.beq_eq`, `Forest.beq_eq`: comparing by listings obeys the equations of comparing by recursion.
4. `Tree.beq_map_by_position`: all of this, with copies.
-/

namespace Discussion

universe u v w

variable {α : Type u} {β : Type v} {γ : Type w}

namespace Tree

/-! ## Positions -/

theorem get?_relabel (g : α → β) (t : Tree α) (path : List Nat) :
    (t.relabel g).get? path = (t.get? path).map (relabel g) := by
  induction path generalizing t with
  | nil => rfl
  | cons i path ih =>
    rw [get?, get?, replies_relabel, List.getElem?_map]
    cases t.replies[i]? with
    | none => rfl
    | some r => exact ih r

theorem mem_nodes_iff_get? {t u : Tree α} : u ∈ t.nodes ↔ ∃ path, t.get? path = some u := by
  constructor
  · intro hu
    induction t with
    | node x ts ih =>
      rcases mem_nodes.1 hu with rfl | hu
      · exact ⟨[], rfl⟩
      · obtain ⟨t, ht, hu⟩ := mem_nodesAll.1 hu
        obtain ⟨path, hpath⟩ := ih t ht hu
        obtain ⟨i, hi⟩ := List.getElem?_of_mem ht
        refine ⟨i :: path, ?_⟩
        rw [get?, hi]
        exact hpath
  · intro hpath
    obtain ⟨path, hpath⟩ := hpath
    induction path generalizing t with
    | nil =>
      cases hpath
      exact self_mem_nodes _
    | cons i path ih =>
      obtain ⟨r, hr, hpath⟩ := Option.bind_eq_some_iff.1 hpath
      exact mem_nodes.2 (.inr (mem_nodesAll.2 ⟨r, List.mem_of_getElem? hr, ih hpath⟩))

theorem forall_mem_nodesAll {P : Tree α → Prop} {ts : List (Tree α)} :
    (∀ v ∈ nodesAll ts, P v) ↔ ∀ t ∈ ts, ∀ v ∈ t.nodes, P v := by
  rw [nodesAll_eq_flatMap]
  exact List.forall_mem_flatMap

/-! ## Shapes -/

/-- The tree without its items. -/
def shape (t : Tree α) : Tree Unit :=
  t.relabel fun _ => ()

theorem shape_node (x : α) (ts : List (Tree α)) : (node x ts).shape = node () (ts.map shape) :=
  congrArg (node ()) (relabelAll_eq_map _ ts)

mutual

theorem shape_relabel (g : α → β) : ∀ t : Tree α, (t.relabel g).shape = t.shape
  | node x ts => by
    rw [relabel, relabelAll_eq_map, shape_node, shape_node, map_shape_relabel g ts]

theorem map_shape_relabel (g : α → β) : ∀ ts : List (Tree α),
    (ts.map (relabel g)).map shape = ts.map shape
  | [] => rfl
  | t :: ts => by
    rw [List.map_cons, List.map_cons, List.map_cons, shape_relabel g t, map_shape_relabel g ts]

end

/-- Trees with the same depths in their listings have the same shapes. -/
theorem map_shape_eq_of_listing {ts : List (Tree α)} {us : List (Tree β)}
    (h : (listing 0 ts).map Prod.fst = (listing 0 us).map Prod.fst) : ts.map shape = us.map shape := by
  refine listing_inj.1 ?_
  show listing 0 (ts.map (relabel fun _ => ())) = listing 0 (us.map (relabel fun _ => ()))
  rw [listing_relabel, listing_relabel]
  have hdepths := congrArg (List.map fun depth => (depth, ())) h
  rwa [List.map_map, List.map_map] at hdepths

mutual

/-- Trees of one shape are the two sides of a tree of pairs. -/
theorem exists_pair : ∀ {t : Tree α} {u : Tree β}, t.shape = u.shape →
    ∃ z : Tree (α × β), z.relabel Prod.fst = t ∧ z.relabel Prod.snd = u
  | node x ts, node y us, h => by
    rw [shape_node, shape_node] at h
    obtain ⟨zs, rfl, rfl⟩ := exists_pairs (node.inj h).2
    refine ⟨node (x, y) zs, ?_, ?_⟩
    · rw [relabel, relabelAll_eq_map]
    · rw [relabel, relabelAll_eq_map]

theorem exists_pairs : ∀ {ts : List (Tree α)} {us : List (Tree β)}, ts.map shape = us.map shape →
    ∃ zs : List (Tree (α × β)), zs.map (relabel Prod.fst) = ts ∧ zs.map (relabel Prod.snd) = us
  | [], [], _ => ⟨[], rfl, rfl⟩
  | [], _ :: _, h => nomatch h
  | _ :: _, [], h => nomatch h
  | t :: ts, u :: us, h => by
    obtain ⟨hroot, hrest⟩ := List.cons.inj h
    obtain ⟨z, rfl, rfl⟩ := exists_pair hroot
    obtain ⟨zs, rfl, rfl⟩ := exists_pairs hrest
    exact ⟨z :: zs, rfl, rfl⟩

end

/-! ## Matching -/

/-- The items at the roots are related, and the replies match, one by one. -/
inductive Matches (R : α → β → Prop) : Tree α → Tree β → Prop
  | node {x : α} {y : β} {ts : List (Tree α)} {us : List (Tree β)} :
      R x y → List.Forall₂ (Matches R) ts us → Matches R (node x ts) (node y us)

variable {R : α → β → Prop} {t : Tree α} {u : Tree β}

theorem matches_node_iff {x : α} {y : β} {ts : List (Tree α)} {us : List (Tree β)} :
    (node x ts).Matches R (node y us) ↔ R x y ∧ List.Forall₂ (Matches R) ts us := by
  constructor
  · intro h
    cases h with
    | node hitem hreplies => exact ⟨hitem, hreplies⟩
  · intro h
    exact .node h.1 h.2

mutual

theorem Matches.shape_eq : ∀ {t : Tree α} {u : Tree β}, t.Matches R u → t.shape = u.shape
  | node x ts, node y us, h => by
    rw [shape_node, shape_node, map_shape_eq_of_matches (matches_node_iff.1 h).2]

theorem map_shape_eq_of_matches : ∀ {ts : List (Tree α)} {us : List (Tree β)},
    List.Forall₂ (Matches R) ts us → ts.map shape = us.map shape
  | [], [], _ => rfl
  | t :: ts, u :: us, h => by
    obtain ⟨hroot, hrest⟩ := List.forall₂_cons.1 h
    rw [List.map_cons, List.map_cons, hroot.shape_eq, map_shape_eq_of_matches hrest]

end

/-! ## Pairs -/

theorem matches_sides_iff (z : Tree (α × β)) :
    (z.relabel Prod.fst).Matches R (z.relabel Prod.snd) ↔ ∀ v ∈ z.nodes, R v.item.1 v.item.2 := by
  induction z with
  | node p zs ih =>
    rw [relabel, relabel, relabelAll_eq_map, relabelAll_eq_map, matches_node_iff,
      List.forall₂_map_left_iff, List.forall₂_map_right_iff, List.forall₂_same, nodes_node,
      List.forall_mem_cons, forall_mem_nodesAll]
    exact and_congr_right fun _ => forall₂_congr ih

theorem forall₂_matches_sides_iff (zs : List (Tree (α × β))) :
    List.Forall₂ (Matches R) (zs.map (relabel Prod.fst)) (zs.map (relabel Prod.snd)) ↔
      ∀ v ∈ nodesAll zs, R v.item.1 v.item.2 := by
  rw [List.forall₂_map_left_iff, List.forall₂_map_right_iff, List.forall₂_same, forall_mem_nodesAll]
  exact forall₂_congr fun z _ => matches_sides_iff z

theorem forall₂_listing_sides_iff (zs : List (Tree (α × β))) :
    List.Forall₂ (fun e f => e.1 = f.1 ∧ R e.2 f.2) (listing 0 (zs.map (relabel Prod.fst)))
        (listing 0 (zs.map (relabel Prod.snd))) ↔ ∀ v ∈ nodesAll zs, R v.item.1 v.item.2 := by
  rw [listing_relabel, listing_relabel, List.forall₂_map_left_iff, List.forall₂_map_right_iff,
    List.forall₂_same, ← map_snd_levelsAll 0 zs, listing, List.forall_mem_map, List.forall_mem_map]
  exact forall₂_congr fun v _ => and_iff_right rfl

theorem get?_sides_iff (z : Tree (α × β)) :
    (∀ path v w, (z.relabel Prod.fst).get? path = some v → (z.relabel Prod.snd).get? path = some w →
      R v.item w.item) ↔ ∀ v ∈ z.nodes, R v.item.1 v.item.2 := by
  constructor
  · intro h v hv
    obtain ⟨path, hpath⟩ := mem_nodes_iff_get?.1 hv
    have hrelated := h path (v.relabel Prod.fst) (v.relabel Prod.snd)
    rw [get?_relabel, get?_relabel, hpath, item_relabel, item_relabel] at hrelated
    exact hrelated rfl rfl
  · intro h path v w hv hw
    rw [get?_relabel, Option.map_eq_some_iff] at hv hw
    obtain ⟨n, hn, rfl⟩ := hv
    obtain ⟨m, hm, rfl⟩ := hw
    cases hn.symm.trans hm
    rw [item_relabel, item_relabel]
    exact h n (mem_nodes_iff_get?.2 ⟨path, hn⟩)

/-- Trees match if they have one shape, and the items at each position are related. -/
theorem matches_iff_get? : t.Matches R u ↔ t.shape = u.shape ∧
    ∀ path v w, t.get? path = some v → u.get? path = some w → R v.item w.item := by
  constructor
  · intro h
    refine ⟨h.shape_eq, ?_⟩
    obtain ⟨z, rfl, rfl⟩ := exists_pair h.shape_eq
    exact (get?_sides_iff z).2 ((matches_sides_iff z).1 h)
  · intro h
    obtain ⟨hshape, hitems⟩ := h
    obtain ⟨z, rfl, rfl⟩ := exists_pair hshape
    exact (matches_sides_iff z).2 ((get?_sides_iff z).1 hitems)

/-- Trees match if their listings have the same depths and related items. -/
theorem forall₂_listing_iff {ts : List (Tree α)} {us : List (Tree β)} :
    List.Forall₂ (fun e f => e.1 = f.1 ∧ R e.2 f.2) (listing 0 ts) (listing 0 us) ↔
      List.Forall₂ (Matches R) ts us := by
  constructor
  · intro h
    have hdepths : (listing 0 ts).map Prod.fst = (listing 0 us).map Prod.fst := by
      rw [← List.forall₂_eq_eq_eq, List.forall₂_map_left_iff, List.forall₂_map_right_iff]
      exact h.imp fun _ _ => And.left
    -- the depths alone give the pairs, so nothing is asked of the relation between items
    obtain ⟨zs, rfl, rfl⟩ := exists_pairs (map_shape_eq_of_listing hdepths)
    exact (forall₂_matches_sides_iff zs).2 ((forall₂_listing_sides_iff zs).1 h)
  · intro h
    obtain ⟨zs, rfl, rfl⟩ := exists_pairs (map_shape_eq_of_matches h)
    exact (forall₂_listing_sides_iff zs).2 ((forall₂_matches_sides_iff zs).1 h)

end Tree

/-! ## Comparing -/

theorem list_beq_iff_forall₂ [BEq α] {xs ys : List α} :
    (xs == ys) = true ↔ List.Forall₂ (fun x y => (x == y) = true) xs ys := by
  induction xs generalizing ys with
  | nil => cases ys <;> simp
  | cons x xs ih =>
    cases ys with
    | nil => simp
    | cons y ys => rw [List.cons_beq_cons, Bool.and_eq_true, List.forall₂_cons, ih]

theorem beq_listing_iff [BEq α] {ts us : List (Tree α)} :
    (Tree.listing 0 ts == Tree.listing 0 us) = true ↔
      List.Forall₂ (Tree.Matches fun x y => (x == y) = true) ts us := by
  have hentry : ∀ e f : Nat × α, (e == f) = true ↔ e.1 = f.1 ∧ (e.2 == f.2) = true := by
    intro e f
    show (e.1 == f.1 && e.2 == f.2) = true ↔ _
    rw [Bool.and_eq_true, beq_iff_eq]
  rw [list_beq_iff_forall₂, ← Tree.forall₂_listing_iff]
  simp only [hentry]

namespace Tree

theorem beq_iff_matches [BEq α] {t u : Tree α} :
    (t == u) = true ↔ t.Matches (fun x y => (x == y) = true) u := by
  show (t.entries == u.entries) = true ↔ _
  rw [entries_eq, entries_eq, beq_listing_iff, List.forall₂_cons, and_iff_left .nil]

theorem beq_replies_iff [BEq α] {ts us : List (Tree α)} :
    (ts == us) = true ↔ List.Forall₂ (Matches fun x y => (x == y) = true) ts us := by
  rw [list_beq_iff_forall₂]
  simp only [beq_iff_matches]

/-- Trees become the same by what is put in the places of their items exactly if they have one shape, and the
same is put at each position. -/
theorem relabel_eq_iff [DecidableEq γ] {g : α → γ} {h : β → γ} {t : Tree α} {u : Tree β} :
    t.relabel g = u.relabel h ↔ t.shape = u.shape ∧
      ∀ path v w, t.get? path = some v → u.get? path = some w → g v.item = h w.item := by
  have hpositions : t.relabel g = u.relabel h ↔ t.shape = u.shape ∧
      ∀ path v w, (t.relabel g).get? path = some v → (u.relabel h).get? path = some w →
        v.item = w.item := by
    rw [← beq_iff_eq, beq_iff_matches, matches_iff_get?, shape_relabel, shape_relabel]
    simp only [beq_iff_eq]
  rw [hpositions]
  refine and_congr_right fun _ => forall_congr' fun path => ?_
  rw [get?_relabel, get?_relabel]
  constructor
  · intro hitems v w hv hw
    have hitem := hitems (v.relabel g) (w.relabel h)
    rw [hv, hw, item_relabel, item_relabel] at hitem
    exact hitem rfl rfl
  · intro hitems v w hv hw
    obtain ⟨n, hn, rfl⟩ := Option.map_eq_some_iff.1 hv
    obtain ⟨m, hm, rfl⟩ := Option.map_eq_some_iff.1 hw
    rw [item_relabel, item_relabel]
    exact hitems n m hn hm

/-- Trees are the same exactly if their items are, and the lists of their replies. -/
theorem beq_eq [BEq α] (t u : Tree α) : (t == u) = (t.item == u.item && t.replies == u.replies) := by
  obtain ⟨x, ts⟩ := t
  obtain ⟨y, us⟩ := u
  rw [Bool.eq_iff_iff, beq_iff_matches, matches_node_iff, Bool.and_eq_true, beq_replies_iff]
  rfl

end Tree

namespace Forest

/-- Comparing discussion by discussion is comparing the listings of the whole forests. -/
theorem beq_eq [BEq α] (f g : Forest α) : (f == g) = (f.entries == g.entries) := by
  show (f.roots == g.roots) = _
  rw [Bool.eq_iff_iff, Tree.beq_replies_iff, entries_eq_listing, entries_eq_listing, beq_listing_iff]

end Forest

namespace Tree

/-! ## Copying -/

theorem get?_map (g : α → β) (t : Tree α) (path : List Nat) :
    ((t.map g).get? path).map item = (t.get? path).map fun v => g v.item := by
  rw [map_eq_relabel, get?_relabel, Option.map_map]
  congr 1
  exact funext fun v => item_relabel g v

theorem map_node (g : α → β) (x : α) (ts : List (Tree α)) :
    (node x ts).map g = node (g x) (ts.map (map g)) := by
  rw [map_eq_relabel, relabel, relabelAll_eq_map]
  congr 1
  exact List.map_congr_left fun t _ => (map_eq_relabel g t).symm

/-- Whatever comparison the items have, two trees are the same exactly if they have one shape and the items
at each position are the same; and so exactly if their items are, and the lists of their replies. Two
forests are the same if their trees are, one by one, which is what comparing their listings says. A copy,
whatever is put in the place of an item, has the shape of the tree and the copied item at each position; it
is the copied item with the copies of the replies, and the copy of a forest is the copies of its trees. -/
theorem beq_map_by_position :
    (∀ [BEq α] (t u : Tree α),
      ((t == u) = true ↔ t.shape = u.shape ∧
        ∀ path v w, t.get? path = some v → u.get? path = some w → (v.item == w.item) = true) ∧
      ((t == u) = true ↔ t.Matches (fun x y => (x == y) = true) u) ∧
      (t == u) = (t.item == u.item && t.replies == u.replies)) ∧
    (∀ [BEq α] (f g : Forest α),
      ((f == g) = true ↔ List.Forall₂ (fun t u => (t == u) = true) f.roots g.roots) ∧
      (f == g) = (f.entries == g.entries)) ∧
    (∀ (g : α → β) (t : Tree α),
      (t.map g).shape = t.shape ∧
      (∀ path, ((t.map g).get? path).map item = (t.get? path).map fun v => g v.item) ∧
      t.map g = node (g t.item) (t.replies.map (map g))) ∧
    ∀ (g : α → β) (f : Forest α), f.map g = ⟨f.roots.map (map g)⟩ := by
  refine ⟨fun t u => ⟨?_, beq_iff_matches, beq_eq t u⟩,
    fun f g => ⟨list_beq_iff_forall₂, Forest.beq_eq f g⟩, fun g t => ⟨?_, get?_map g t, ?_⟩,
    fun g f => ?_⟩
  · rw [beq_iff_matches, matches_iff_get?]
  · rw [map_eq_relabel, shape_relabel]
  · obtain ⟨x, ts⟩ := t
    exact map_node g x ts
  · rw [Forest.map_eq_relabel]
    congr 1
    exact List.map_congr_left fun t _ => (map_eq_relabel g t).symm

/-- Numbers that are compared by their last digit. The last of the three trees has the items of the first one,
in the same order, but another shape. -/
theorem beq_map_by_position_of_numbers :
    let _ : BEq Nat := ⟨fun m n => m % 10 = n % 10⟩
    let t : Tree Nat := .node 1 [.node 2 [.leaf 3]]
    let u : Tree Nat := .node 11 [.node 12 [.leaf 13]]
    let v : Tree Nat := .node 1 [.leaf 2, .leaf 3]
    (t == u) = true ∧ (t == v) = false ∧ ((t.map toString).get? [0]).map item = some "2" := by
  intro _ t u v
  obtain ⟨htrees, _, hcopies, _⟩ := beq_map_by_position (α := Nat) (β := String)
  refine ⟨(htrees t u).2.1.2 ?_, Bool.eq_false_iff.2 fun hsame => ?_, (hcopies toString t).2.1 [0]⟩
  · exact .node rfl (.cons (.node rfl (.cons (.node rfl .nil) .nil)) .nil)
  · have hshape : node () [node () [leaf ()]] = node () [leaf (), leaf ()] :=
      ((htrees t v).1.1 hsame).1
    cases hshape

end Tree

end Discussion
