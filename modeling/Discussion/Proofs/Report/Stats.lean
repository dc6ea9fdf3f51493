import Discussion.Command.Run
import Discussion.Proofs.Files.Loading
import Discussion.Proofs.Threading.Counting

/-!
# The numbers of a file

The numbers that are taken from a forest of posts are those that counting on the list of posts gives,
so they do not depend on the order of the posts in a file.

* `Stats.astray ps`: how many posts reply to a post that is not in the list.
* `Stats.Counts ps s`: the numbers `s` are counted on the list `ps`, without a forest.

Results:
1. `Stats.Counts.unique`, `Stats.Counts.perm`: a list has one count, whatever its order.
2. `Forest.counts_stats`: the numbers of the forest that a list is threaded into are counted.
3. `Workspace.stats_of_holds_perm`: another order of the posts in a file changes no number and no kind of
   error.
4. `Stats.counted_on_list`: all of this, with the warning that a drawing comes with.
-/

namespace Discussion

open Threaded

/-! ## Counting -/

namespace Stats

/-- The number of posts that reply to a post that is not in the list. -/
def astray (ps : List Post) : Nat :=
  ps.countP fun p => p.parent.any fun i => !present ps i

/-- Numbers that are counted on a list of posts. -/
structure Counts (ps : List Post) (s : Stats) : Prop where
  /-- All posts. -/
  posts : s.posts = ps.length
  /-- Posts that name no parent, or none that is in the list. -/
  threads : s.threads = ps.countP (starts ps)
  /-- Posts that name a parent, but none that is in the list. -/
  promoted : s.promoted = astray ps
  /-- The posts on the longest chain of parents; none if there are no posts. -/
  depth : IsGreatest (insert 0 {n | ∃ p ∈ ps, ChainLength ps p n}) s.depth
  /-- Posts that no post names as its parent. -/
  leaves : s.leaves = ps.countP fun p => !answered ps p.id

variable {ps qs : List Post}

theorem Counts.unique {s t : Stats} (hs : Counts ps s) (ht : Counts ps t) : s = t := by
  cases s
  cases t
  congr
  · exact hs.posts.trans ht.posts.symm
  · exact hs.threads.trans ht.threads.symm
  · exact hs.promoted.trans ht.promoted.symm
  · exact hs.depth.unique ht.depth
  · exact hs.leaves.trans ht.leaves.symm

theorem astray_perm (h : ps.Perm qs) : astray ps = astray qs := by
  have hpresent : present ps = present qs := funext fun _ => h.any_eq
  rw [astray, astray, hpresent, h.countP_eq]

theorem Counts.perm (h : ps.Perm qs) {s : Stats} (hs : Counts ps s) : Counts qs s where
  posts := hs.posts.trans h.length_eq
  threads := by rw [hs.threads, starts_perm h, h.countP_eq]
  promoted := hs.promoted.trans (astray_perm h)
  depth := by
    have hset : {n | ∃ p ∈ ps, ChainLength ps p n} = {n | ∃ p ∈ qs, ChainLength qs p n} := by
      ext n
      constructor
      · rintro ⟨p, hp, hn⟩
        exact ⟨p, h.mem_iff.1 hp, hn.perm h⟩
      · rintro ⟨p, hp, hn⟩
        exact ⟨p, h.mem_iff.2 hp, hn.perm h.symm⟩
    exact hset ▸ hs.depth
  leaves := by rw [hs.leaves, answered_perm h, h.countP_eq]

end Stats

namespace Forest

variable {ps : List Post} {f : Forest Post}

theorem Arranges.promoted_eq (h : f.Arranges ps) : f.promoted = Stats.astray ps := by
  -- a root with a parent can only have a parent that is not in the list
  have hastray : ∀ p : Post, (p.parent.isSome && starts ps p) =
      p.parent.any fun i => !present ps i := by
    intro p
    show (p.parent.isSome && p.parent.all fun i => !present ps i) = _
    cases p.parent <;> rfl
  rw [promoted, h.countP_roots fun p => p.parent.isSome]
  exact List.countP_congr fun p _ => by rw [hastray]

/-- The numbers of a forest can be counted on the list. -/
theorem counts_stats (h : thread ps = .ok f) : Stats.Counts ps f.stats := by
  obtain ⟨distinct, grounded, arranges⟩ := thread_eq_ok_iff.1 h
  exact
    { posts := arranges.size_eq distinct grounded
      threads := arranges.length_roots
      promoted := arranges.promoted_eq
      depth := arranges.isGreatest_depth distinct grounded
      leaves := arranges.length_leaves distinct grounded }

end Forest

namespace Workspace

variable {v w : Workspace} {file file' : Path} {ps qs : List Post}

/-- A file with the same posts in another order has the same numbers, or is refused for the same kind of
reason. -/
theorem stats_of_holds_perm (hv : v.Holds file ps) (hw : w.Holds file' qs)
    (same : v.settings.rootParentId = w.settings.rootParentId) (h : ps.Perm qs) :
    (∃ s, v.stats file = .ok s ∧ w.stats file' = .ok s) ∨
    (∃ i j, v.stats file = .error (.threading (.duplicateId i)) ∧
      w.stats file' = .error (.threading (.duplicateId j))) ∨
    ∃ i j, v.stats file = .error (.threading (.cycle i)) ∧
      w.stats file' = .error (.threading (.cycle j)) := by
  -- both files are loaded with the same number for no parent, so loading keeps the permutation
  have hloaded := h.map (Post.normalize v.settings.rootParentId)
  rw [stats_of_load (load_eq_ok_iff.2 ⟨ps, hv, rfl⟩),
    stats_of_load (load_eq_ok_iff.2 ⟨qs, hw, rfl⟩), ← same]
  obtain ⟨f, g, hf, hg⟩ | ⟨i, j, hi, hj⟩ | ⟨i, j, hi, hj⟩ := Forest.thread_perm_cases hloaded
  · have hsame : f.stats = g.stats :=
      ((Forest.counts_stats hf).perm hloaded).unique (Forest.counts_stats hg)
    rw [thread_ok hf, thread_ok hg]
    exact .inl ⟨f.stats, rfl, hsame ▸ rfl⟩
  · rw [thread_error hi, thread_error hj]
    exact .inr (.inl ⟨_, _, rfl, rfl⟩)
  · rw [thread_error hi, thread_error hj]
    exact .inr (.inr ⟨_, _, rfl, rfl⟩)

end Workspace

namespace Stats

/-- The numbers of a forest are counted on the list of its posts, and they are the only ones that are.
`stats` gives them for the file that the list was loaded from, and the warning of `tree` about the file
says how many posts are astray. In another order of the posts in the file nothing but the identity in an
error can change. -/
theorem counted_on_list :
    (∀ (ps : List Post) (f : Forest Post), Forest.thread ps = .ok f →
      ∀ s, Counts ps s ↔ s = f.stats) ∧
    (∀ (h : Command.Host) (settings : Settings) (file : Path) (ps : List Post) (f : Forest Post),
      let w : Workspace := ⟨h.files, h.environment, settings⟩
      w.load file = .ok ps → Forest.thread ps = .ok f →
        w.stats file = .ok f.stats ∧
        ((Command.Request.tree file).run h settings).err =
          if astray ps = 0 then ""
          else h.warningLine
            (toString (astray ps) ++ " post(s) reply to posts missing from " ++ file.text)) ∧
    (∀ (v w : Workspace) (file file' : Path) (ps qs : List Post),
      v.Holds file ps → w.Holds file' qs → v.settings.rootParentId = w.settings.rootParentId →
      ps.Perm qs →
        (∃ s, v.stats file = .ok s ∧ w.stats file' = .ok s) ∨
        (∃ i j, v.stats file = .error (.threading (.duplicateId i)) ∧
          w.stats file' = .error (.threading (.duplicateId j))) ∨
        ∃ i j, v.stats file = .error (.threading (.cycle i)) ∧
          w.stats file' = .error (.threading (.cycle j))) := by
  refine ⟨?_, ?_, fun v w file file' ps qs => Workspace.stats_of_holds_perm⟩
  · intro ps f h s
    constructor
    · intro hs
      exact hs.unique (Forest.counts_stats h)
    · rintro rfl
      exact Forest.counts_stats h
  · intro h settings file ps f w hload hf
    constructor
    · rw [Workspace.stats_of_load hload, Workspace.thread_ok hf]
      rfl
    · show (h.outcome (w.build file) _).err = _
      rw [Workspace.build_of_load hload, Workspace.thread_ok hf]
      show h.promotedWarning file f = _
      rw [Command.Host.promotedWarning, (Forest.thread_eq_ok_iff.1 hf).2.2.promoted_eq]

/-- A discussion with a reply, and a reply to a post that is not there. -/
def exPosts : List Post :=
  [⟨1, none, "", none⟩, ⟨2, some 1, "", none⟩, ⟨3, some 9, "", none⟩]

def exForest : Forest Post :=
  ⟨[.node ⟨1, none, "", none⟩ [.node ⟨2, some 1, "", none⟩ []], .node ⟨3, some 9, "", none⟩ []]⟩

def exText : String :=
  "[\x7b\"id\":1\x7d,\x7b\"id\":2,\"parent\":1\x7d,\x7b\"id\":3,\"parent\":9\x7d]"

/-- The same posts, the reply first. -/
def exTextSwapped : String :=
  "[\x7b\"id\":2,\"parent\":1\x7d,\x7b\"id\":1\x7d,\x7b\"id\":3,\"parent\":9\x7d]"

def exHost : Command.Host where
  files := .ofEntries
    [(⟨"a.json"⟩, .file (.ok exText)), (⟨"b.json"⟩, .file (.ok exTextSwapped))]
  environment := {}
  directory := none

open Workspace in
theorem counted_on_list_of_files :
    Counts exPosts ⟨3, 2, 1, 2, 2⟩ ∧
    ((Command.Request.tree ⟨"a.json"⟩).run exHost {}).err =
      "Warning: 1 post(s) reply to posts missing from a.json\n" ∧
    Workspace.stats ⟨exHost.files, exHost.environment, {}⟩ ⟨"a.json"⟩ = .ok ⟨3, 2, 1, 2, 2⟩ ∧
    Workspace.stats ⟨exHost.files, exHost.environment, {}⟩ ⟨"b.json"⟩ = .ok ⟨3, 2, 1, 2, 2⟩ := by
  obtain ⟨hcounts, htree, hswap⟩ := counted_on_list
  have hthread : Forest.thread exPosts = .ok exForest :=
    Forest.Arranges.thread_eq ⟨by decide, by decide⟩ (by decide) (by decide)
  have hstats : exForest.stats = ⟨3, 2, 1, 2, 2⟩ := by decide +kernel
  let w : Workspace := ⟨exHost.files, exHost.environment, {}⟩
  have hfirst : w.Holds ⟨"a.json"⟩ exPosts :=
    ⟨.json, exText, .bare exPosts, eq_ok_of_toOption (by decide +kernel),
      eq_ok_of_toOption (by decide +kernel), eq_ok_of_toOption (by decide +kernel), rfl⟩
  have hsecond : w.Holds ⟨"b.json"⟩ [⟨2, some 1, "", none⟩, ⟨1, none, "", none⟩,
      ⟨3, some 9, "", none⟩] :=
    ⟨.json, exTextSwapped, .bare _, eq_ok_of_toOption (by decide +kernel),
      eq_ok_of_toOption (by decide +kernel), eq_ok_of_toOption (by decide +kernel), rfl⟩
  have hload : w.load ⟨"a.json"⟩ = .ok exPosts :=
    Workspace.load_eq_ok_iff.2 ⟨exPosts, hfirst, by decide⟩
  obtain ⟨hnumbers, hwarning⟩ := htree exHost {} ⟨"a.json"⟩ exPosts exForest hload hthread
  rw [hstats] at hnumbers
  refine ⟨(hcounts exPosts exForest hthread _).2 hstats.symm, ?_, hnumbers, ?_⟩
  · rw [hwarning]
    decide +kernel
  · obtain ⟨s, ha, hb⟩ | ⟨i, _, ha, _⟩ | ⟨i, _, ha, _⟩ :=
      hswap w w ⟨"a.json"⟩ ⟨"b.json"⟩ _ _ hfirst hsecond rfl (.swap _ _ _)
    · exact hb.trans (ha.symm.trans hnumbers)
    · exact nomatch ha.symm.trans hnumbers
    · exact nomatch ha.symm.trans hnumbers

end Stats

end Discussion
