import Discussion.Proofs.Tree.Levels

/-!
# Reading pre-order listings

An assembly closes open items only when the next entry asks for it. What has been read is looked at in
two ways. `Assembly.add` says which trees the open path has gained once it is closed again; it follows
the trees of a listing that was taken from a forest. `Assembly.listing` writes down what has been read,
finished or not; it follows the entries of any listing.

Results:
1. `Assembly.Counted.closeTo_foldl_push`: the listing of some trees adds these trees.
2. `Assembly.Counted.listing_push`: an entry is listed at its depth, or below the item before it.
3. `Assembly.Counted.listing_foldl_push`: a listing with any depths is read at its settled depths.
-/

namespace Discussion

universe u

variable {α : Type u}

namespace Tree

/-- The pre-order listing of some trees, their roots at the depth given. -/
def listing (level : Nat) (ts : List (Tree α)) : List (Nat × α) :=
  (levelsAll level ts).map fun v => (v.1, v.2.item)

theorem listing_append (level : Nat) (ts us : List (Tree α)) :
    listing level (ts ++ us) = listing level ts ++ listing level us := by
  simp only [listing, levelsAll_eq_flatMap, List.flatMap_append, List.map_append]

theorem listing_singleton (level : Nat) (x : α) (ts : List (Tree α)) :
    listing level [node x ts] = (level, x) :: listing (level + 1) ts := by
  simp [listing, levelsAll, levels]

theorem listing_cons (level : Nat) (x : α) (ts us : List (Tree α)) :
    listing level (node x ts :: us) = (level, x) :: (listing (level + 1) ts ++ listing level us) := by
  rw [← List.singleton_append, listing_append, listing_singleton, List.cons_append]

theorem level_le_of_mem_listing {level : Nat} {ts : List (Tree α)} :
    ∀ e ∈ listing level ts, level ≤ e.1 := by
  intro e he
  obtain ⟨v, hv, rfl⟩ := List.mem_map.1 he
  exact level_le_of_mem_levelsAll v hv

theorem exists_node_of_mem_listing {level : Nat} {ts : List (Tree α)} {e : Nat × α}
    (he : e ∈ listing level ts) : ∃ v ∈ nodesAll ts, v.item = e.2 := by
  obtain ⟨v, hv, rfl⟩ := List.mem_map.1 he
  refine ⟨v.2, ?_, rfl⟩
  rw [← map_snd_levelsAll level]
  exact List.mem_map_of_mem hv

theorem entries_eq (t : Tree α) : t.entries = listing 0 [t] := by
  rw [entries, walk, Walk.toList_ofTrees]
  rfl

end Tree

namespace Assembly

/-- The level is the number of open items. -/
def Counted (a : Assembly α) : Prop :=
  a.level = a.path.length

/-! ## Closing -/

theorem Counted.closeLast {a : Assembly α} (h : a.Counted) : a.closeLast.Counted := by
  obtain ⟨_ | ⟨o, _ | ⟨p, path⟩⟩, level, roots⟩ := a
  · exact h
  · obtain rfl : level = 1 := h
    rfl
  · obtain rfl : level = path.length + 2 := h
    rfl

theorem Counted.level_closeLast {a : Assembly α} (h : a.Counted) :
    a.closeLast.level = a.level - 1 := by
  obtain ⟨_ | ⟨o, _ | ⟨p, path⟩⟩, level, roots⟩ := a
  · obtain rfl : level = 0 := h
    rfl
  · rfl
  · rfl

theorem Counted.closeMany {a : Assembly α} (h : a.Counted) (n : Nat) :
    (a.closeMany n).Counted ∧ (a.closeMany n).level = a.level - n := by
  induction n generalizing a with
  | zero => exact ⟨h, rfl⟩
  | succ n ih =>
    obtain ⟨hcounted, hlevel⟩ := ih h.closeLast
    refine ⟨hcounted, hlevel.trans ?_⟩
    rw [h.level_closeLast, Nat.sub_sub, Nat.add_comm]

theorem closeMany_closeMany (m n : Nat) (a : Assembly α) :
    closeMany n (closeMany m a) = closeMany (m + n) a := by
  induction m generalizing a with
  | zero => rw [Nat.zero_add]; rfl
  | succ m ih => rw [Nat.succ_add]; exact ih a.closeLast

theorem Counted.closeTo {a : Assembly α} (h : a.Counted) (depth : Nat) :
    (a.closeTo depth).Counted :=
  (h.closeMany _).1

theorem Counted.level_closeTo {a : Assembly α} (h : a.Counted) (depth : Nat) :
    (a.closeTo depth).level = min depth a.level := by
  rw [Assembly.closeTo, (h.closeMany _).2]
  omega

theorem closeTo_of_level_le {a : Assembly α} {depth : Nat} (h : a.level ≤ depth) :
    a.closeTo depth = a := by
  rw [closeTo, Nat.sub_eq_zero_of_le h]
  rfl

theorem closeTo_of_level_eq {a : Assembly α} {depth : Nat} (h : a.level = depth + 1) :
    a.closeTo depth = a.closeLast := by
  rw [closeTo, h, Nat.add_sub_cancel_left]
  rfl

/-- Closing may stop on the way. -/
theorem Counted.closeTo_closeTo {a : Assembly α} (h : a.Counted) {depth stop : Nat}
    (hle : depth ≤ stop) : (a.closeTo stop).closeTo depth = a.closeTo depth := by
  rw [Assembly.closeTo, h.level_closeTo, Assembly.closeTo, closeMany_closeMany, Assembly.closeTo]
  congr 1
  omega

/-! ## Reading an entry -/

theorem Counted.push {a : Assembly α} (h : a.Counted) (e : Nat × α) :
    (a.push e).Counted ∧ (a.push e).level = min e.1 a.level + 1 := by
  have hlevel := h.level_closeTo e.1
  exact ⟨congrArg (· + 1) (h.closeTo e.1), congrArg (· + 1) hlevel⟩

theorem Counted.foldl_push {a : Assembly α} (h : a.Counted) (es : List (Nat × α)) :
    (es.foldl Assembly.push a).Counted := by
  induction es generalizing a with
  | nil => exact h
  | cons e es ih => exact ih (h.push e).1

theorem Counted.le_level_foldl_push {a : Assembly α} (h : a.Counted) {depth : Nat}
    (hle : depth ≤ a.level) {es : List (Nat × α)} (hes : ∀ e ∈ es, depth ≤ e.1) :
    depth ≤ (es.foldl Assembly.push a).level := by
  induction es generalizing a with
  | nil => exact hle
  | cons e es ih =>
    obtain ⟨he, hes⟩ := List.forall_mem_cons.1 hes
    obtain ⟨hcounted, hlevel⟩ := h.push e
    exact ih hcounted (hlevel ▸ Nat.le_succ_of_le (Nat.le_min.2 ⟨he, hle⟩)) hes

/-! ## Listings of trees -/

/-- Adds finished trees as the last replies to the innermost open item, or as the last roots if none is
open. -/
def add (ts : List (Tree α)) : Assembly α → Assembly α
  | ⟨[], level, roots⟩ => ⟨[], level, ts.reverse ++ roots⟩
  | ⟨o :: path, level, roots⟩ =>
    ⟨{ o with replies := ts.reverse ++ o.replies } :: path, level, roots⟩

theorem add_nil (a : Assembly α) : a.add [] = a := by
  obtain ⟨_ | ⟨o, path⟩, level, roots⟩ := a <;> rfl

theorem level_add (ts : List (Tree α)) (a : Assembly α) : (a.add ts).level = a.level := by
  obtain ⟨_ | ⟨o, path⟩, level, roots⟩ := a <;> rfl

theorem add_add (ts us : List (Tree α)) (a : Assembly α) :
    (a.add ts).add us = a.add (ts ++ us) := by
  obtain ⟨_ | ⟨o, path⟩, level, roots⟩ := a <;> simp [add]

theorem closeLast_cons (o : OpenItem α) (path : List (OpenItem α)) (level : Nat)
    (roots : List (Tree α)) :
    closeLast ⟨o :: path, level + 1, roots⟩ = add [o.close] ⟨path, level, roots⟩ := by
  cases path <;> rfl

/-- An item is read, trees are added below it, and it is closed again. -/
theorem closeLast_add_push (a : Assembly α) (depth : Nat) (x : α) (ts : List (Tree α)) :
    ((a.push (depth, x)).add ts).closeLast = (a.closeTo depth).add [.node x ts] := by
  rw [push, add, closeLast_cons, OpenItem.close, List.append_nil, List.reverse_reverse]

/-- The listing of some trees, read where their level is open, adds these trees to what is open there.
The level may have been left open deeper before, and is so afterwards. -/
theorem Counted.closeTo_foldl_push : ∀ (ts : List (Tree α)) {a : Assembly α}, a.Counted →
    ∀ {level : Nat}, level ≤ a.level →
      ((Tree.listing level ts).foldl Assembly.push a).closeTo level = (a.closeTo level).add ts
  | [], a, _, level, _ => (add_nil _).symm
  | .node x us :: ts, a, h, level, hle => by
    -- the listing of `us` is read with one level more, that of `ts` where the root was read
    obtain ⟨hpush, hlevel⟩ := h.push (level, x)
    rw [Nat.min_eq_left hle] at hlevel
    rw [Tree.listing_cons, List.foldl_cons, List.foldl_append]
    generalize hb : (Tree.listing (level + 1) us).foldl Assembly.push (a.push (level, x)) = b
    have hcounted : b.Counted := hb ▸ hpush.foldl_push _
    have hopen : level ≤ b.level := hb ▸ hpush.le_level_foldl_push (hlevel ▸ Nat.le_succ level)
      fun e he => Nat.le_of_succ_le (Tree.level_le_of_mem_listing e he)
    -- the replies are added to the item just read, which then is closed itself
    have hreplies : b.closeTo (level + 1) = (a.push (level, x)).add us := by
      rw [← hb, closeTo_foldl_push us hpush hlevel.ge, closeTo_of_level_le hlevel.le]
    have hclosed : b.closeTo level = (a.closeTo level).add [.node x us] := by
      rw [← hcounted.closeTo_closeTo (Nat.le_succ level), hreplies,
        closeTo_of_level_eq ((level_add us _).trans hlevel), closeLast_add_push]
    rw [closeTo_foldl_push ts hcounted hopen, hclosed, add_add, List.singleton_append]

/-! ## What has been read -/

/-- The listing of the open items from the outermost one on, each with the replies read so far. -/
def listingOfPath : List (OpenItem α) → List (Nat × α)
  | [] => []
  | o :: path =>
    listingOfPath path ++ (path.length, o.item) :: Tree.listing (path.length + 1) o.replies.reverse

/-- The listing of what has been read: the finished discussions, and what is open. -/
def listing (a : Assembly α) : List (Nat × α) :=
  Tree.listing 0 a.roots.reverse ++ listingOfPath a.path

theorem listing_closeLast (a : Assembly α) : a.closeLast.listing = a.listing := by
  obtain ⟨_ | ⟨⟨x, ts⟩, _ | ⟨⟨y, us⟩, path⟩⟩, level, roots⟩ := a
  · rfl
  · simp [closeLast, listing, listingOfPath, OpenItem.close, Tree.listing_append,
      Tree.listing_singleton]
  · simp [closeLast, listing, listingOfPath, OpenItem.close, Tree.listing_append,
      Tree.listing_singleton]

theorem listing_closeTo (a : Assembly α) (depth : Nat) : (a.closeTo depth).listing = a.listing := by
  rw [closeTo]
  generalize a.level - depth = n
  induction n generalizing a with
  | zero => rfl
  | succ n ih => exact (ih a.closeLast).trans a.listing_closeLast

/-- An entry is listed at its depth, but no deeper than below the innermost open item. -/
theorem Counted.listing_push {a : Assembly α} (h : a.Counted) (e : Nat × α) :
    (a.push e).listing = a.listing ++ [(min e.1 a.level, e.2)] := by
  have hlength : (a.closeTo e.1).path.length = min e.1 a.level :=
    (h.closeTo e.1).symm.trans (h.level_closeTo e.1)
  rw [← a.listing_closeTo e.1, ← hlength]
  exact (List.append_assoc _ _ _).symm

end Assembly

/-- The depths at which items come to stand that are listed at the depths given: none stands deeper than
directly below the item before it, and the first one no deeper than `room`. -/
def settleFrom : Nat → List Nat → List Nat
  | _, [] => []
  | room, d :: ds => min d room :: settleFrom (min d room + 1) ds

namespace Assembly

/-- What is read of a listing has its items, at the depths at which these come to stand. -/
theorem Counted.listing_foldl_push {a : Assembly α} (h : a.Counted) (es : List (Nat × α)) :
    (es.foldl Assembly.push a).listing =
      a.listing ++ (settleFrom a.level (es.map Prod.fst)).zip (es.map Prod.snd) := by
  induction es generalizing a with
  | nil => exact (List.append_nil _).symm
  | cons e es ih =>
    obtain ⟨hpush, hlevel⟩ := h.push e
    rw [List.foldl_cons, ih hpush, h.listing_push, hlevel, List.append_assoc]
    rfl

/-- When everything is closed, all that was read is in the discussions. -/
theorem Counted.listing_finish {a : Assembly α} (h : a.Counted) :
    Tree.listing 0 a.finish = a.listing := by
  have hclosed : (a.closeTo 0).path = [] := by
    rw [← List.length_eq_zero_iff, ← h.closeTo 0, h.level_closeTo, Nat.zero_min]
  rw [finish, ← a.listing_closeTo 0, listing, hclosed, listingOfPath, List.append_nil]

theorem counted_empty : Counted ({} : Assembly α) :=
  rfl

end Assembly

end Discussion
