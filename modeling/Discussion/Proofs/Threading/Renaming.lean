import Discussion.Proofs.Threading.Outcome
import Discussion.Proofs.Tree.Listing
import Discussion.Proofs.Tree.Measures

/-!
# Renamed items

The items of a list are replaced one by one, and the new items name each other as the old ones did.
Threading then does the same with them, and puts each new item in the place of the old one.

* `Threaded.Renames g f xs`: `g` replaces the items of the list, and `f` their identities. Different
  identities of the list have to stay different; nothing else is asked of `f`.
* `Threaded.Carries g f xs`: all that threading looks at stays as it was. A renaming does this, and so
  does a change of parents that are not there.
* `Threaded.through view`: items of another kind, such as references, that are threaded by what
  they are seen to be.

Results:
1. `Threaded.Carries.answers_iff`, `Threaded.Carries.starts_map`, `Threaded.Carries.grounded_iff`: the
   new items have the lineage of the old ones.
2. `Forest.entries_relabel`, `Forest.depth_relabel` and their companions: a forest whose items are
   replaced is listed and measured as before.
3. `Forest.Arranges.relabel`: a forest that arranges the list arranges the new list once its items are
   replaced.
4. `Forest.thread_renamed`: what threading returns for the new list.
-/

namespace Discussion

universe u v w w'

variable {α : Type u} {β : Type w} {γ : Type w'} {ι κ : Type v}

/-- The error with another name for the identity. -/
def ThreadingError.rename (f : ι → κ) : ThreadingError ι → ThreadingError κ
  | duplicateId i => duplicateId (f i)
  | cycle i => cycle (f i)

namespace Threaded

/-- Threads references by the items that they refer to. -/
abbrev through [Threaded β ι] (view : α → β) : Threaded α ι where
  id r := id (view r)
  parent? r := parent? (view r)

variable [Threaded α ι] [Threaded β κ] {g : α → β} {f : ι → κ} {xs ys : List α} {x y : α}

/-- The identities that occur in a list, be it as the identity of an item or of a parent. -/
def names (xs : List α) : Set ι :=
  {i | ∃ x ∈ xs, id x = i ∨ parent? x = some i}

/-- The items of the list are replaced by `g` and their identities by `f`, and no two identities of the
list are replaced by the same one. -/
structure Renames (g : α → β) (f : ι → κ) (xs : List α) : Prop where
  id_eq : ∀ x ∈ xs, id (g x) = f (id x)
  parent_eq : ∀ x ∈ xs, parent? (g x) = (parent? x).map f
  injOn : Set.InjOn f (names xs)

/-- The items of the list are replaced by `g` and their identities by `f`, and every item replies to the
same items as before. A parent that is not in the list may become any other that is not there. -/
structure Carries (g : α → β) (f : ι → κ) (xs : List α) : Prop where
  id_eq : ∀ x ∈ xs, id (g x) = f (id x)
  parent_iff : ∀ x ∈ xs, ∀ y ∈ xs, parent? (g x) = some (f (id y)) ↔ parent? x = some (id y)
  injOn : Set.InjOn f {i | ∃ x ∈ xs, id x = i}

/-- A parent of the new list is the parent of the old one under its new name. -/
theorem Renames.carries (h : Renames g f xs) : Carries g f xs where
  id_eq := h.id_eq
  parent_iff x hx y hy := by
    rw [h.parent_eq x hx, Option.map_eq_some_iff]
    constructor
    · rintro ⟨j, hj, hji⟩
      rw [hj, h.injOn ⟨x, hx, .inr hj⟩ ⟨y, hy, .inl rfl⟩ hji]
    · intro hparent
      exact ⟨id y, hparent, rfl⟩
  injOn := h.injOn.mono fun _ => Exists.imp fun _ hx => ⟨hx.1, .inl hx.2⟩

theorem FirstRepeat.mem (h : FirstRepeat xs x) : x ∈ xs := by
  obtain ⟨before, after, rfl, _, _⟩ := h
  exact List.mem_append_right _ List.mem_cons_self

namespace Carries

theorem kept [Threaded γ ι] {g : α → γ}
    (h : ∀ x ∈ xs, id (g x) = id x ∧ parent? (g x) = parent? x) :
    Carries g (fun i : ι => i) xs where
  id_eq x hx := (h x hx).1
  parent_iff x hx _ _ := by rw [(h x hx).2]
  injOn := fun _ _ _ _ h => h

theorem mono (h : Carries g f xs) (hsub : ys ⊆ xs) : Carries g f ys where
  id_eq x hx := h.id_eq x (hsub hx)
  parent_iff x hx y hy := h.parent_iff x (hsub hx) y (hsub hy)
  injOn := h.injOn.mono fun _ => Exists.imp fun _ hx => ⟨hsub hx.1, hx.2⟩

theorem map_id (h : Carries g f xs) : (xs.map g).map id = (xs.map id).map f := by
  rw [List.map_map, List.map_map]
  exact List.map_congr_left h.id_eq

theorem nodup_iff (h : Carries g f xs) : ((xs.map g).map id).Nodup ↔ (xs.map id).Nodup := by
  rw [h.map_id]
  refine ⟨List.Nodup.of_map f, List.Nodup.map_on fun i hi j hj => ?_⟩
  exact h.injOn (List.mem_map.1 hi) (List.mem_map.1 hj)

theorem answers_iff (h : Carries g f xs) (hx : x ∈ xs) (hy : y ∈ xs) :
    Answers (xs.map g) (g x) (g y) ↔ Answers xs x y := by
  rw [Answers, h.id_eq y hy, h.parent_iff x hx y hy]
  exact and_congr_left fun _ => ⟨fun _ => hy, List.mem_map_of_mem⟩

variable [BEq ι] [LawfulBEq ι] [BEq κ] [LawfulBEq κ]

theorem starts_map (h : Carries g f xs) (hx : x ∈ xs) :
    starts (xs.map g) (g x) = starts xs x := by
  rw [Bool.eq_iff_iff, starts_iff, starts_iff]
  constructor
  · intro hno y hy
    exact hno (g y) ((h.answers_iff hx hy.1).2 hy)
  · intro hno z hz
    obtain ⟨y, hy, rfl⟩ := List.mem_map.1 hz.1
    exact hno y ((h.answers_iff hx hy).1 hz)

theorem starters_map (h : Carries g f xs) : starters (xs.map g) = (starters xs).map g := by
  rw [starters, starters, List.filter_map]
  exact congrArg _ (List.filter_congr fun x hx => h.starts_map hx)

theorem repliesTo_map (h : Carries g f xs) (hy : y ∈ xs) :
    repliesTo (xs.map g) (id (g y)) = (repliesTo xs (id y)).map g := by
  rw [repliesTo, repliesTo, List.filter_map, h.id_eq y hy]
  refine congrArg _ (List.filter_congr fun x hx => ?_)
  rw [Bool.eq_iff_iff, Function.comp_apply, beq_iff_eq, beq_iff_eq]
  exact h.parent_iff x hx y hy

theorem grounded_map (h : Carries g f xs) (hx : x ∈ xs) (hground : Grounded xs x) :
    Grounded (xs.map g) (g x) := by
  induction hground with
  | start hs => exact .start (h.starts_map hx ▸ hs)
  | reply hy _ ih => exact .reply ((h.answers_iff hx hy.1).2 hy) (ih hy.1)

theorem grounded_of_map (h : Carries g f xs) {z : β} (hground : Grounded (xs.map g) z) :
    ∀ x ∈ xs, g x = z → Grounded xs x := by
  induction hground with
  | start hs =>
    rintro x hx rfl
    exact .start (h.starts_map hx ▸ hs)
  | reply hz _ ih =>
    rintro x hx rfl
    obtain ⟨y, hy, rfl⟩ := List.mem_map.1 hz.1
    exact .reply ((h.answers_iff hx hy).1 hz) (ih y hy rfl)

theorem grounded_iff (h : Carries g f xs) (hx : x ∈ xs) :
    Grounded (xs.map g) (g x) ↔ Grounded xs x :=
  ⟨fun hground => h.grounded_of_map hground x hx rfl, h.grounded_map hx⟩

omit [BEq ι] [LawfulBEq ι] [BEq κ] [LawfulBEq κ] in
/-- The identity of an item was seen before it if that is so in the old list. -/
theorem firstRepeat (h : Carries g f xs) (hx : FirstRepeat xs x) : FirstRepeat (xs.map g) (g x) := by
  obtain ⟨before, after, rfl, nodup, hmem⟩ := hx
  have hbefore : Carries g f before := h.mono (List.subset_append_left _ _)
  refine ⟨before.map g, after.map g, by rw [List.map_append, List.map_cons],
    hbefore.nodup_iff.2 nodup, ?_⟩
  rw [hbefore.map_id, h.id_eq x (by simp)]
  exact List.mem_map_of_mem hmem

theorem firstStranded (h : Carries g f xs) (hx : FirstStranded xs x) :
    FirstStranded (xs.map g) (g x) := by
  obtain ⟨before, after, rfl, grounded, hground⟩ := hx
  refine ⟨before.map g, after.map g, by rw [List.map_append, List.map_cons], ?_,
    mt (h.grounded_iff (by simp)).1 hground⟩
  intro z hz
  obtain ⟨y, hy, rfl⟩ := List.mem_map.1 hz
  exact h.grounded_map (List.mem_append_left _ hy) (grounded y hy)

end Carries

end Threaded

open Threaded

namespace Forest

/-- Replaces every item in its place. -/
def relabel (g : α → β) (k : Forest α) : Forest β :=
  ⟨k.roots.map (Tree.relabel g)⟩

theorem relabel_self (k : Forest α) : (k.relabel fun x => x) = k := by
  obtain ⟨ts⟩ := k
  exact congrArg Forest.mk ((List.map_congr_left fun t _ => t.relabel_id).trans (List.map_id' ts))

theorem nodes_relabel (g : α → β) (k : Forest α) : (k.relabel g).nodes = k.nodes.map (Tree.relabel g) :=
  Tree.nodesAll_relabel g k.roots

theorem entries_relabel (g : α → β) (k : Forest α) :
    (k.relabel g).entries = k.entries.map fun e => (e.1, g e.2) := by
  rw [entries_eq_listing, entries_eq_listing]
  exact Tree.listing_relabel g 0 k.roots

theorem length_roots_relabel (g : α → β) (k : Forest α) :
    (k.relabel g).roots.length = k.roots.length :=
  List.length_map _

theorem size_relabel (g : α → β) (k : Forest α) : (k.relabel g).size = k.size := by
  rw [size_eq, size_eq, nodes_relabel, List.length_map]

theorem depth_relabel (g : α → β) (k : Forest α) : (k.relabel g).depth = k.depth := by
  rw [depth_eq, depth_eq]
  exact Tree.heightAll_relabel g k.roots

theorem leaves_relabel (g : α → β) (k : Forest α) : (k.relabel g).leaves = k.leaves.map g := by
  have hleaf (t : Tree α) : (t.relabel g).isLeaf = t.isLeaf := by
    rw [Tree.isLeaf, Tree.isLeaf, Tree.replies_relabel, List.isEmpty_map]
  simp [leaves_eq, nodes_relabel, List.filter_map, Function.comp_def, hleaf]

section Carries

variable [Threaded α ι] [Threaded β κ] {g : α → β} {f : ι → κ} {xs : List α} {k : Forest α}
variable [BEq ι] [LawfulBEq ι] [BEq κ] [LawfulBEq κ]

theorem Arranges.relabel (h : k.Arranges xs) (hg : Carries g f xs) :
    (k.relabel g).Arranges (xs.map g) := by
  have hitem (ts : List (Tree α)) :
      (ts.map (Tree.relabel g)).map Tree.item = (ts.map Tree.item).map g := by
    simp [Function.comp_def]
  constructor
  · rw [Forest.relabel, hitem, h.roots, hg.starters_map]
  · intro t ht
    rw [nodes_relabel] at ht
    obtain ⟨u, hu, rfl⟩ := List.mem_map.1 ht
    have hmem := (h.item_mem u hu).1
    rw [Tree.replies_relabel, hitem, h.replies u hu, Tree.item_relabel, hg.repliesTo_map hmem]

variable [Hashable ι] [Hashable κ]

theorem thread_map_ok (h : Carries g f xs) (hk : thread xs = .ok k) :
    thread (xs.map g) = .ok (k.relabel g) := by
  obtain ⟨distinct, grounded, hk⟩ := thread_eq_ok_iff.1 hk
  refine thread_eq_ok_iff.2 ⟨h.nodup_iff.2 distinct, fun z hz => ?_, hk.relabel h⟩
  obtain ⟨x, hx, rfl⟩ := List.mem_map.1 hz
  exact h.grounded_map hx (grounded x hx)

theorem thread_map_duplicateId (h : Carries g f xs) {i : ι}
    (hi : thread xs = .error (.duplicateId i)) :
    ∃ x, FirstRepeat xs x ∧ Threaded.id x = i ∧ FirstRepeat (xs.map g) (g x) ∧
      thread (xs.map g) = .error (.duplicateId (f i)) := by
  obtain ⟨x, hx, rfl⟩ := thread_eq_duplicateId_iff.1 hi
  have hx' := h.firstRepeat hx
  exact ⟨x, hx, rfl, hx', h.id_eq x hx.mem ▸ thread_of_firstRepeat hx'⟩

theorem thread_map_cycle (h : Carries g f xs) {i : ι} (hi : thread xs = .error (.cycle i)) :
    ∃ x, FirstStranded xs x ∧ Threaded.id x = i ∧ FirstStranded (xs.map g) (g x) ∧
      thread (xs.map g) = .error (.cycle (f i)) := by
  obtain ⟨distinct, x, hx, rfl⟩ := thread_eq_cycle_iff.1 hi
  have hx' := h.firstStranded hx
  have hmem := (firstStranded_iff_firstWith.1 hx).mem.1
  exact ⟨x, hx, rfl, hx', h.id_eq x hmem ▸
    thread_of_firstStranded (h.nodup_iff.2 distinct) hx'⟩

/-- Renaming before threading is renaming afterwards. -/
theorem thread_map (h : Carries g f xs) :
    thread (xs.map g) = ((thread xs).map (relabel g)).mapError (ThreadingError.rename f) := by
  cases hxs : thread xs with
  | ok k => exact thread_map_ok h hxs
  | error e =>
    cases e with
    | duplicateId i =>
      obtain ⟨_, _, _, _, hmap⟩ := thread_map_duplicateId h hxs
      exact hmap
    | cycle i =>
      obtain ⟨_, _, _, _, hmap⟩ := thread_map_cycle h hxs
      exact hmap

end Carries

/-! ## Kept identities -/

section Kept

variable [Threaded α ι] [BEq ι] [LawfulBEq ι] (hash hash' : Hashable ι) {xs : List α}

/-- If identities stay as they are, so do errors. How identities are hashed does not matter. -/
theorem thread_map_kept [Threaded β ι] {g : α → β} (h : Carries g (fun i : ι => i) xs) :
    @thread β ι _ hash' _ (xs.map g) = (@thread α ι _ hash _ xs).map (relabel g) := by
  have hmap := @thread_map α β ι ι _ _ g _ xs _ _ _ _ hash hash' h
  rw [hmap]
  cases @thread α ι _ hash _ xs with
  | ok k => rfl
  | error e => cases e <;> rfl

theorem thread_hash (xs : List α) : @thread α ι _ hash' _ xs = @thread α ι _ hash _ xs := by
  have hself : Carries (fun x : α => x) (fun i : ι => i) xs := .kept fun _ _ => ⟨rfl, rfl⟩
  have hthread := thread_map_kept hash hash' hself
  rw [List.map_id'] at hthread
  rw [hthread]
  cases @thread α ι _ hash _ xs with
  | ok k => exact congrArg Except.ok k.relabel_self
  | error e => rfl

end Kept

variable [Threaded α ι] [Threaded β κ] [BEq ι] [LawfulBEq ι] [BEq κ] [LawfulBEq κ]
variable [hash : Hashable ι] [Hashable κ]

/-- References are threaded like the items that they refer to. -/
theorem thread_through (view : γ → α) (rs : List γ) :
    thread (rs.map view) = (@thread γ ι _ _ (through view) rs).map (relabel view) := by
  let _ : Threaded γ ι := through view
  exact thread_map_kept hash hash (.kept fun _ _ => ⟨rfl, rfl⟩)

/-- Two lists whose items agree in identities and parents are threaded as one list of pairs is. -/
theorem thread_pairs [Threaded γ ι] {zs : List (α × γ)}
    (h : ∀ z ∈ zs, Threaded.id z.2 = Threaded.id z.1 ∧ parent? z.2 = parent? z.1) :
    ∃ r : Except (ThreadingError ι) (Forest (α × γ)),
      thread (zs.map Prod.fst) = r.map (relabel Prod.fst) ∧
        thread (zs.map Prod.snd) = r.map (relabel Prod.snd) := by
  refine ⟨@thread (α × γ) ι _ _ (through Prod.fst) zs, thread_through _ _, ?_⟩
  let _ : Threaded (α × γ) ι := through Prod.fst
  exact thread_map_kept hash hash (.kept h)

/-- If items are replaced one by one, and their identities so that different ones stay different, then
threading gives the forest with the items replaced in their places, or it fails at the item that
replaces the one at which it failed before. So it makes no difference whether items or references to
them are threaded, what items hold beside their identity and their parent, and how identities compare
or are hashed. -/
theorem thread_renamed :
    (∀ (g : α → β) (f : ι → κ) (xs : List α), Renames g f xs →
      (∀ k, thread xs = .ok k → thread (xs.map g) = .ok (k.relabel g)) ∧
      (∀ i, thread xs = .error (.duplicateId i) → ∃ x, FirstRepeat xs x ∧ Threaded.id x = i ∧
        FirstRepeat (xs.map g) (g x) ∧ thread (xs.map g) = .error (.duplicateId (f i))) ∧
      ∀ i, thread xs = .error (.cycle i) → ∃ x, FirstStranded xs x ∧ Threaded.id x = i ∧
        FirstStranded (xs.map g) (g x) ∧ thread (xs.map g) = .error (.cycle (f i))) ∧
    (∀ (view : γ → α) (rs : List γ),
      thread (rs.map view) = (@thread γ ι _ _ (through view) rs).map (relabel view)) ∧
    (∀ zs : List (α × α),
      (∀ z ∈ zs, Threaded.id z.2 = Threaded.id z.1 ∧ parent? z.2 = parent? z.1) →
      ∃ r : Except (ThreadingError ι) (Forest (α × α)),
        thread (zs.map Prod.fst) = r.map (relabel Prod.fst) ∧
          thread (zs.map Prod.snd) = r.map (relabel Prod.snd)) ∧
    ∀ (hash' : Hashable ι) (xs : List α), @thread α ι _ hash' _ xs = @thread α ι _ hash _ xs :=
  ⟨fun _ _ _ h => ⟨fun _ => thread_map_ok h.carries, fun _ => thread_map_duplicateId h.carries,
      fun _ => thread_map_cycle h.carries⟩,
    thread_through, fun _ => thread_pairs, thread_hash hash⟩

/-- A reply before the post it replies to, and a post whose parent is not there. -/
def exPosts : List Post :=
  [⟨2, some 1, "re", none⟩, ⟨1, none, "first", some "a"⟩, ⟨3, some 9, "", none⟩]

/-- The same posts without texts, under numbers that run backwards. -/
def exRenumber (p : Post) : Post :=
  ⟨10 - p.id, p.parent.map (10 - ·), "", none⟩

theorem thread_renamed_of_posts :
    Renames exRenumber (10 - ·) exPosts ∧
    thread (exPosts.map exRenumber) = .ok ⟨[.node ⟨9, none, "", none⟩
      [.leaf ⟨8, some 9, "", none⟩], .leaf ⟨7, some 1, "", none⟩]⟩ ∧
    (∃ x, FirstRepeat (exPosts ++ exPosts) x ∧ x.id = 2 ∧
      thread ((exPosts ++ exPosts).map exRenumber) = .error (.duplicateId 8)) ∧
    ∃ r : Except (ThreadingError UInt64) (Forest (Post × Post)),
      thread exPosts = r.map (relabel Prod.fst) ∧
        thread (exPosts.map fun p => { p with subject := "" }) = r.map (relabel Prod.snd) := by
  obtain ⟨hmap, -, hpairs, -⟩ := thread_renamed (α := Post) (β := Post) (γ := Post)
  have hrenames (ps : List Post) : Renames exRenumber (10 - ·) ps :=
    ⟨fun _ _ => rfl, fun _ _ => rfl, fun i _ j _ h => by simpa using h⟩
  have hthread : thread exPosts = .ok ⟨[.node ⟨1, none, "first", some "a"⟩
      [.leaf ⟨2, some 1, "re", none⟩], .leaf ⟨3, some 9, "", none⟩]⟩ :=
    Arranges.thread_eq ⟨by decide, by decide⟩ (by decide) (by decide)
  refine ⟨hrenames _, (hmap _ _ _ (hrenames _)).1 _ hthread, ?_, ?_⟩
  · have hrepeat : FirstRepeat (exPosts ++ exPosts) ⟨2, some 1, "re", none⟩ :=
      ⟨exPosts, _, rfl, by decide, by decide⟩
    obtain ⟨x, hx, hid, -, hrun⟩ :=
      (hmap _ _ _ (hrenames _)).2.1 _ (thread_of_firstRepeat hrepeat)
    exact ⟨x, hx, hid, hrun⟩
  · exact hpairs (exPosts.map fun p => (p, { p with subject := "" })) (by decide)

end Forest

end Discussion
