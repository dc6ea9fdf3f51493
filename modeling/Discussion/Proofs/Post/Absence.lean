import Discussion.Proofs.Report.Stats
import Discussion.Proofs.Threading.Deletion
import Discussion.Proofs.Threading.Renaming

/-!
# The number that stands for no parent

A board may write that a post has no parent by giving it a parent with a certain number. Posts are loaded
without such parents. There is a second way for a post to be without a parent, namely to name one that is
not there, and the two go together as long as no post has the number itself.

* `Stats.astrayExcept absent ps`: how many posts reply to a post that is not in the list, other than the
  one that stands for no parent.

Results:
1. `Post.carries_normalize`: without a post of that number every post replies to the same posts as
   before.
2. `Post.answers_normalize_iff`, `Post.starts_normalize_iff`: with such a post, who still replies to whom.
3. `Forest.thread_normalized`: what is built of the posts that are loaded.
-/

namespace Discussion

open Threaded

/-! ## One post -/

namespace Post

variable (absent : UInt64)

theorem id_normalize (p : Post) : (p.normalize absent).id = p.id := by
  unfold normalize
  split <;> rfl

theorem parent_normalize_eq_some_iff {p : Post} {i : UInt64} :
    (p.normalize absent).parent = some i ↔ p.parent = some i ∧ i ≠ absent := by
  unfold normalize
  split
  · next h =>
    rw [h, Option.some.injEq]
    exact ⟨nofun, fun ⟨heq, hne⟩ => absurd heq.symm hne⟩
  · next h =>
    refine ⟨fun hi => ⟨hi, ?_⟩, And.left⟩
    rintro rfl
    exact h hi

theorem normalize_of_ne {p : Post} (h : p.parent ≠ some absent) : p.normalize absent = p :=
  if_neg h

theorem parent_normalize_of_eq {p : Post} (h : p.parent = some absent) :
    (p.normalize absent).parent = none := by
  rw [normalize, if_pos h]

/-! ## Many posts -/

variable {absent} {ps : List Post}

theorem present_normalize (ps : List Post) : present (ps.map (normalize absent)) = present ps := by
  funext i
  rw [present, List.any_map]
  exact congrArg _ (funext fun p => congrArg (· == i) (id_normalize absent p))

/-- Where no post has the number for no parent, a parent with this number is one that is not there. -/
theorem carries_normalize (h : ∀ p ∈ ps, p.id ≠ absent) :
    Carries (normalize absent) (fun i => i) ps where
  id_eq p _ := id_normalize absent p
  parent_iff _ _ q hq :=
    (parent_normalize_eq_some_iff absent).trans (and_iff_left (h q hq))
  injOn := fun _ _ _ _ h => h

theorem answers_normalize_iff {p q : Post} (hq : q ∈ ps) :
    Answers (ps.map (normalize absent)) (p.normalize absent) (q.normalize absent) ↔
      p.parent = some q.id ∧ q.id ≠ absent := by
  have hparent : (p.normalize absent).parent = some (q.normalize absent).id ↔
      p.parent = some q.id ∧ q.id ≠ absent := by
    rw [id_normalize, parent_normalize_eq_some_iff]
  exact (and_iff_right (List.mem_map_of_mem hq)).trans hparent

theorem starts_normalize_iff {p : Post} :
    starts (ps.map (normalize absent)) (p.normalize absent) ↔
      ∀ q ∈ ps, p.parent = some q.id → q.id = absent := by
  rw [starts_iff]
  constructor
  · intro hno q hq hparent
    by_contra hne
    exact hno _ ((answers_normalize_iff hq).2 ⟨hparent, hne⟩)
  · intro habsent r hr
    obtain ⟨q, hq, rfl⟩ := List.mem_map.1 hr.1
    obtain ⟨hparent, hne⟩ := (answers_normalize_iff hq).1 hr
    exact hne (habsent q hq hparent)

end Post

/-! ## The numbers -/

namespace Stats

variable {absent : UInt64} {ps : List Post}

/-- The number of posts that reply to a post that is not in the list, not counting those whose parent is
`absent`. -/
def astrayExcept (absent : UInt64) (ps : List Post) : Nat :=
  ps.countP fun p => p.parent.any fun i => i != absent && !present ps i

theorem astray_normalize (absent : UInt64) (ps : List Post) :
    astray (ps.map (Post.normalize absent)) = astrayExcept absent ps := by
  rw [astray, astrayExcept, List.countP_map, Post.present_normalize]
  refine List.countP_congr fun p _ => ?_
  rw [Function.comp_apply, Option.any_eq_true, Option.any_eq_true]
  refine exists_congr fun i => ?_
  rw [Post.parent_normalize_eq_some_iff, Bool.and_eq_true, bne_iff_ne, and_assoc]

/-- A post whose parent is `absent` is astray if no post has this number. -/
theorem astray_eq_add (h : ∀ p ∈ ps, p.id ≠ absent) :
    astray ps = astrayExcept absent ps + ps.countP fun p => p.parent == some absent := by
  have hmissing : present ps absent = false := by
    rw [← Bool.not_eq_true, present_iff]
    rintro ⟨p, hp, hid⟩
    exact h p hp hid
  -- posts with another parent count alike on both sides, and those with this parent are all astray
  rw [astray, astrayExcept, List.countP_eq_countP_filter_add ps _ fun p => p.parent != some absent,
    List.countP_filter, List.countP_filter]
  congr 1
  · refine List.countP_congr fun p _ => ?_
    cases p.parent <;> simp [and_comm]
  · refine List.countP_congr fun p _ => ?_
    cases p.parent with
    | none => rfl
    | some i =>
      by_cases hi : i = absent
      · rw [hi, Option.any_some, hmissing]
        simp
      · simp [hi]

end Stats

/-! ## What is built -/

namespace Forest

variable {absent : UInt64} {ps : List Post} {f : Forest Post}

theorem stats_relabel_normalize (absent : UInt64) (f : Forest Post) :
    (f.relabel (Post.normalize absent)).stats =
      { f.stats with promoted := (f.relabel (Post.normalize absent)).promoted } := by
  rw [stats, size_relabel, depth_relabel, leaves_relabel, length_roots_relabel, List.length_map]
  rfl

theorem promoted_of_normalized (hf : thread (ps.map (Post.normalize absent)) = .ok f) :
    f.promoted = Stats.astrayExcept absent ps :=
  (thread_eq_ok_iff.1 hf).2.2.promoted_eq.trans (Stats.astray_normalize absent ps)

theorem thread_normalized_of_forall_ne (h : ∀ p ∈ ps, p.id ≠ absent) :
    thread (ps.map (Post.normalize absent)) =
      (thread ps).map (relabel (Post.normalize absent)) :=
  thread_map_kept _ _ (Post.carries_normalize h)

/-- The posts that stay astray and those that named the number for no parent are all that were
astray. -/
theorem promoted_eq_add (h : ∀ p ∈ ps, p.id ≠ absent) (hf : thread ps = .ok f) :
    f.promoted = (f.relabel (Post.normalize absent)).promoted +
      ps.countP fun p => p.parent == some absent := by
  have hnormalized := thread_normalized_of_forall_ne h
  rw [hf] at hnormalized
  rw [promoted_of_normalized hnormalized, (thread_eq_ok_iff.1 hf).2.2.promoted_eq,
    Stats.astray_eq_add h]

section Accepted

variable (hf : thread (ps.map (Post.normalize absent)) = .ok f)
include hf

theorem replies_normalize_iff {p q : Post} (hp : p ∈ ps) (hq : q ∈ ps) :
    f.Replies (p.normalize absent) (q.normalize absent) ↔ p.parent = some q.id ∧ q.id ≠ absent := by
  obtain ⟨_, grounded, arranges⟩ := thread_eq_ok_iff.1 hf
  rw [arranges.replies_iff grounded, Post.answers_normalize_iff hq]
  exact and_iff_right (List.mem_map_of_mem hp)

theorem mem_roots_normalize_iff {p : Post} (hp : p ∈ ps) :
    p.normalize absent ∈ f.roots.map Tree.item ↔
      ∀ q ∈ ps, p.parent = some q.id → q.id = absent := by
  rw [(thread_eq_ok_iff.1 hf).2.2.mem_roots_iff, Post.starts_normalize_iff]
  exact and_iff_right (List.mem_map_of_mem hp)

/-- Nothing that is loaded replies to the number for no parent, so a post of this number is a leaf. -/
theorem isLeaf_of_id_eq {t : Tree Post} (ht : t ∈ f.nodes) (hid : t.item.id = absent) : t.isLeaf := by
  have hreplies := (thread_eq_ok_iff.1 hf).2.2.replies t ht
  have hnone : repliesTo (ps.map (Post.normalize absent)) t.item.id = [] := by
    refine List.eq_nil_iff_forall_not_mem.2 fun z hz => ?_
    obtain ⟨hmem, hparent⟩ := mem_repliesTo.1 hz
    obtain ⟨p, _, rfl⟩ := List.mem_map.1 hmem
    exact ((Post.parent_normalize_eq_some_iff absent).1 hparent).2 hid
  exact List.isEmpty_iff.2 (List.map_eq_nil_iff.1 (hreplies.trans hnone))

theorem exists_node_normalize {p : Post} (hp : p ∈ ps) :
    ∃ t ∈ f.nodes, t.item = p.normalize absent := by
  obtain ⟨_, grounded, arranges⟩ := thread_eq_ok_iff.1 hf
  have hmem := List.mem_map_of_mem (f := Post.normalize absent) hp
  exact arranges.exists_node hmem (grounded _ hmem)

theorem exists_root_of_absent {p : Post} (hp : p ∈ ps) (hparent : p.parent = some absent) :
    ∃ t ∈ f.roots, t.item = p.normalize absent ∧ t.item.parent = none := by
  have hroot : p.normalize absent ∈ f.roots.map Tree.item := by
    rw [mem_roots_normalize_iff hf hp, hparent]
    exact fun q _ hq => (Option.some.inj hq).symm
  obtain ⟨t, ht, hitem⟩ := List.mem_map.1 hroot
  exact ⟨t, ht, hitem, hitem ▸ Post.parent_normalize_of_eq absent hparent⟩

/-- The posts with other parents are where their parents say. -/
theorem kept_of_ne {p : Post} (hp : p ∈ ps) (hne : p.parent ≠ some absent) :
    (∀ q ∈ ps, f.Replies p (q.normalize absent) ↔ p.parent = some q.id) ∧
    (p ∈ f.roots.map Tree.item ↔ ∀ q ∈ ps, p.parent ≠ some q.id) := by
  have hnamed : ∀ q ∈ ps, p.parent = some q.id → q.id ≠ absent := by
    rintro q _ hq rfl
    exact hne hq
  have hroots := mem_roots_normalize_iff hf hp
  rw [Post.normalize_of_ne absent hne] at hroots
  constructor
  · intro q hq
    have hreplies := replies_normalize_iff hf hp hq
    rw [Post.normalize_of_ne absent hne] at hreplies
    exact hreplies.trans (and_iff_left_of_imp (hnamed q hq))
  · exact hroots.trans (forall₂_congr fun q hq =>
      ⟨fun himp heq => hnamed q hq heq (himp heq), fun hno heq => absurd heq hno⟩)

end Accepted

/-- The posts of a file are threaded without the parents that stand for none. If no post has the number
`absent`, this gives what threading the posts as they are written gives, with those parents cleared in
their places, be it a forest or an error. Of the numbers of the forest only the promoted discussions
change, by as many as there are such parents. If a post does have that number, and the posts are
accepted, then it is a leaf, the posts that named it are roots without a parent, and every other post
is left as it is and stands below the post that its parent names. -/
theorem thread_normalized (absent : UInt64) (ps : List Post) :
    let loaded := ps.map (Post.normalize absent)
    (∀ (w : Workspace) (file : Path), w.settings.rootParentId = absent → w.Holds file ps →
      w.build file = Workspace.thread loaded) ∧
    ((∀ p ∈ ps, p.id ≠ absent) →
      thread loaded = (thread ps).map (relabel (Post.normalize absent)) ∧
      Workspace.thread loaded = (Workspace.thread ps).map (relabel (Post.normalize absent)) ∧
      ∀ f, thread ps = .ok f →
        let g := f.relabel (Post.normalize absent)
        g.entries = (f.entries.map fun e => (e.1, e.2.normalize absent)) ∧
        g.stats = { f.stats with promoted := g.promoted } ∧
        f.promoted = g.promoted + ps.countP fun p => p.parent == some absent) ∧
    ∀ p ∈ ps, p.id = absent → ∀ f, thread loaded = .ok f →
      (∃ t ∈ f.nodes, t.item = p.normalize absent) ∧
      (∀ t ∈ f.nodes, t.item.id = absent → t.isLeaf) ∧
      (∀ q ∈ ps, q.parent = some absent →
        ∃ t ∈ f.roots, t.item = q.normalize absent ∧ t.item.parent = none) ∧
      f.promoted = Stats.astrayExcept absent ps ∧
      ∀ q ∈ ps, q.parent ≠ some absent → q.normalize absent = q ∧
        (∀ r ∈ ps, f.Replies q (r.normalize absent) ↔ q.parent = some r.id) ∧
        (q ∈ f.roots.map Tree.item ↔ ∀ r ∈ ps, q.parent ≠ some r.id) := by
  intro loaded
  refine ⟨?_, fun h => ⟨thread_normalized_of_forall_ne h, ?_, ?_⟩, ?_⟩
  · rintro w file rfl hholds
    exact Workspace.build_of_load (Workspace.load_eq_ok_iff.2 ⟨ps, hholds, rfl⟩)
  · unfold Workspace.thread
    rw [thread_normalized_of_forall_ne h]
    cases thread ps <;> rfl
  · intro f hf g
    exact ⟨entries_relabel _ f, stats_relabel_normalize absent f, promoted_eq_add h hf⟩
  · intro p hp hid f hf
    refine ⟨exists_node_normalize hf hp, fun t ht => isLeaf_of_id_eq hf ht, ?_,
      promoted_of_normalized hf, ?_⟩
    · intro q hq hparent
      exact exists_root_of_absent hf hq hparent
    · intro q hq hne
      exact ⟨Post.normalize_of_ne absent hne, kept_of_ne hf hq hne⟩

/-- Two posts that name each other. -/
def exPair : List Post :=
  [⟨0, some 1, "", none⟩, ⟨1, some 0, "", none⟩]

open Workspace in
/-- Where 9 stands for no parent, the reply to post 9 is no longer promoted. Where 0 does, and there is a
post 0, a cycle is taken apart. -/
theorem thread_normalized_of_posts :
    Workspace.build ⟨Stats.exHost.files, Stats.exHost.environment, { rootParentId := 9 }⟩ ⟨"a.json"⟩ =
      .ok (Stats.exForest.relabel (Post.normalize 9)) ∧
    Stats.exForest.promoted = 1 ∧ (Stats.exForest.relabel (Post.normalize 9)).promoted = 0 ∧
    thread exPair = .error (.cycle 0) ∧
    ∃ f, thread (exPair.map (Post.normalize 0)) = .ok f ∧
      (∀ t ∈ f.nodes, t.item.id = 0 → t.isLeaf) ∧
      f.Replies ⟨0, some 1, "", none⟩ ⟨1, none, "", none⟩ ∧ f.promoted = 0 := by
  obtain ⟨hbuild, hfree, -⟩ := thread_normalized 9 Stats.exPosts
  obtain ⟨-, -, hused⟩ := thread_normalized 0 exPair
  have hholds : Holds ⟨Stats.exHost.files, Stats.exHost.environment, { rootParentId := 9 }⟩
      ⟨"a.json"⟩ Stats.exPosts :=
    ⟨.json, Stats.exText, .bare Stats.exPosts, eq_ok_of_toOption (by decide +kernel),
      eq_ok_of_toOption (by decide +kernel), eq_ok_of_toOption (by decide +kernel), rfl⟩
  have hthread : thread Stats.exPosts = .ok Stats.exForest :=
    Arranges.thread_eq ⟨by decide, by decide⟩ (by decide) (by decide)
  obtain ⟨-, hthreaded, hnumbers⟩ := hfree (by decide)
  obtain ⟨-, -, hpromoted⟩ := hnumbers _ hthread
  have hone : Stats.exForest.promoted = 1 := by decide
  have hpair : thread (exPair.map (Post.normalize 0)) =
      .ok ⟨[.node ⟨1, none, "", none⟩ [.leaf ⟨0, some 1, "", none⟩]]⟩ :=
    Arranges.thread_eq ⟨by decide, by decide⟩ (by decide) (by decide)
  obtain ⟨-, hleaf, -, hcount, hkept⟩ := hused ⟨0, some 1, "", none⟩ (by decide) rfl _ hpair
  obtain ⟨-, hreplies, -⟩ := hkept ⟨0, some 1, "", none⟩ (by decide) (by decide)
  refine ⟨?_, hone, ?_, ?_, _, hpair, hleaf, ?_, hcount.trans (by decide)⟩
  · rw [hbuild _ ⟨"a.json"⟩ rfl hholds, hthreaded, thread_ok hthread]
    rfl
  · have hnamed : (Stats.exPosts.countP fun p => p.parent == some 9) = 1 := by decide
    rw [hone, hnamed] at hpromoted
    omega
  · -- each of the two posts replies to the other
    have hcycle : Relation.TransGen (Answers exPair) ⟨0, some 1, "", none⟩ ⟨0, some 1, "", none⟩ :=
      .tail (.single ⟨List.mem_cons_of_mem _ List.mem_cons_self, rfl⟩) ⟨List.mem_cons_self, rfl⟩
    have hstranded := (not_grounded_iff_cycle (by decide) List.mem_cons_self).2 ⟨_, .refl, hcycle⟩
    exact thread_of_firstStranded (by decide) ⟨[], _, rfl, List.forall_mem_nil _, hstranded⟩
  · exact (hreplies ⟨1, some 0, "", none⟩ (by decide)).2 rfl

end Forest

end Discussion
