import Discussion.Proofs.Command.Listings
import Discussion.Proofs.Report.Bounds

/-!
# How wide a flat listing gets

Settings admit every word for the width of a level, and discussions may be of any depth. So there may be no
room for the indentation of a deep post, and then the run breaks off before it prints anything. A width that
does not even fit a word would wrap around, but no run gets that far: a narrower one that there is no room
for comes first.

Results:
1. `Forest.hasRoom_iff`: whether there is room is up to the deepest post.
2. `Command.flat_by_room`: what a run prints if there is room, and how it ends otherwise.
-/

namespace Discussion

/-! ## Forests -/

namespace Forest

variable {f : Forest Post} {indent : UInt64}

theorem level_lt_depth : ∀ e ∈ f.entries, e.1 < f.depth := by
  intro e he
  rw [entries_eq_listing] at he
  obtain ⟨v, hv, rfl⟩ := List.mem_map.1 he
  exact f.isGreatest_depth.2 (.inr ⟨v, hv, rfl⟩)

/-- A forest with a post has one on the last level that counts. -/
theorem exists_deepest (h : f.depth ≠ 0) : ∃ e ∈ f.entries, e.1 + 1 = f.depth := by
  rcases f.isGreatest_depth.1 with hzero | ⟨v, hv, hdepth⟩
  · exact absurd hzero h
  · refine ⟨(v.1, v.2.item), ?_, hdepth⟩
    rw [entries_eq_listing]
    exact List.mem_map_of_mem hv

theorem hasRoom_iff : f.HasRoom indent ↔ (f.depth - 1) * indent.toNat ≤ Text.maxSize := by
  constructor
  · intro hroom
    by_cases hdepth : f.depth = 0
    · rw [hdepth, Nat.zero_sub, Nat.zero_mul]
      exact Nat.zero_le _
    · obtain ⟨e, he, hlast⟩ := exists_deepest hdepth
      rw [← hlast, Nat.add_sub_cancel]
      exact hroom e he
  · intro hlast e he
    have hlevel := level_lt_depth e he
    exact Nat.le_trans (Nat.mul_le_mul_right _ (by omega)) hlast

theorem depth_le_length {ps : List Post} (h : thread ps = .ok f) : f.depth ≤ ps.length := by
  obtain ⟨distinct, grounded, arranges⟩ := thread_eq_ok_iff.1 h
  have hsize := arranges.size_eq distinct grounded
  rw [size_eq_countAll] at hsize
  rw [depth_eq, ← hsize]
  exact Tree.heightAll_le_countAll f.roots

end Forest

/-! ## Runs -/

namespace Command

/-- If there is room for every indentation, a file is listed with all of them as wide as they are meant.
Otherwise the run breaks off and nothing is printed. The deepest post decides this, and at the worst it stands
below all other posts of the file. In either case no width wraps around on the way: the first one that there
is no room for still fits a word. -/
theorem flat_by_room (h : Host) (s : Settings) (file : Path) (ps : List Post) (f : Forest Post)
    (hs : Settings.load h.files h.environment h.directory = .ok s)
    (hload : Workspace.load ⟨h.files, h.environment, s⟩ file = .ok ps)
    (hf : Forest.thread ps = .ok f) :
    let o := h.runRequest (some (.flat file))
    (f.HasRoom s.indent → o.out = unlines (f.flatLines s.indent) ∧ o.exit = 0) ∧
    (¬ f.HasRoom s.indent → o.out = "" ∧ o.exit = 101) ∧
    (f.HasRoom s.indent ↔ (f.depth - 1) * s.indent.toNat ≤ Text.maxSize) ∧
    ((ps.length - 1) * s.indent.toNat ≤ Text.maxSize → f.HasRoom s.indent) ∧
    ∀ before e after, f.entries = before ++ e :: after →
      (∀ e' ∈ before, Forest.flatLine? s.indent e'.1 e'.2 ≠ none) → e.1 * s.indent.toNat < 2 ^ 64 := by
  intro o
  refine ⟨fun hroom => ?_, fun hroom => ?_, Forest.hasRoom_iff, fun hall => ?_,
    fun before e after hentries hbefore => ?_⟩
  · show (h.runRequest _).out = _ ∧ (h.runRequest _).exit = 0
    rw [runRequest_flat_of_hasRoom hs hload hf hroom]
    exact ⟨rfl, rfl⟩
  · show (h.runRequest _).out = "" ∧ (h.runRequest _).exit = 101
    rw [runRequest_flat_of_not_hasRoom hs hload hf hroom]
    exact ⟨rfl, rfl⟩
  · have hdepth := Forest.depth_le_length hf
    exact Forest.hasRoom_iff.2 (Nat.le_trans (Nat.mul_le_mul_right _ (by omega)) hall)
  · exact Forest.width_lt_of_first hentries (Forest.width_le_of_lines hentries hbefore)

/-- A post, a reply, and a reply to the reply. -/
def exChain : List Post :=
  [⟨1, none, "", none⟩, ⟨2, some 1, "", none⟩, ⟨3, some 2, "", none⟩]

def exDeep : Forest Post :=
  ⟨[.node ⟨1, none, "", none⟩ [.node ⟨2, some 1, "", none⟩ [.leaf ⟨3, some 2, "", none⟩]]]⟩

/-- The width of a level is given by a variable. -/
def exIndented (indent : String) : Host where
  files := .ofEntries [(⟨"a.json"⟩, .file (.ok
    "[\x7b\"id\":1\x7d,\x7b\"id\":2,\"parent\":1\x7d,\x7b\"id\":3,\"parent\":2\x7d]"))]
  environment := .ofBindings [("REPLYTREE_INDENT", indent)]
  directory := none

/-- The greatest power of two that is a word, for the width of a level. -/
def exWide : Host :=
  exIndented "9223372036854775808"

theorem thread_exChain : Forest.thread exChain = .ok exDeep :=
  Forest.Arranges.thread_eq ⟨by decide, by decide⟩ (by decide) (by decide)

theorem entries_exDeep : exDeep.entries =
    [(0, ⟨1, none, "", none⟩), (1, ⟨2, some 1, "", none⟩), (2, ⟨3, some 2, "", none⟩)] :=
  Forest.entries_eq _

open Workspace in
/-- With three spaces for a level there is room. -/
theorem flat_by_room_of_chain :
    ((exIndented "3").runRequest (some (.flat ⟨"a.json"⟩))).out = "#1 \n   #2 \n      #3 \n" := by
  have hload : Workspace.load ⟨(exIndented "3").files, (exIndented "3").environment, { indent := 3 }⟩
      ⟨"a.json"⟩ = .ok exChain := eq_ok_of_toOption (by decide +kernel)
  obtain ⟨hlisted, -, -, hroom, -⟩ := flat_by_room (exIndented "3") { indent := 3 } ⟨"a.json"⟩ exChain exDeep
    (eq_ok_of_toOption (by decide +kernel)) hload thread_exChain
  rw [(hlisted (hroom (by decide))).1, Forest.flatLines, entries_exDeep]
  decide +kernel

open Workspace in
/-- The settings are accepted, and so are the posts. The width of the last indentation does not fit a word,
but already the one before it is too wide, and so the run breaks off. -/
theorem flat_of_wide_indent :
    Settings.load exWide.files exWide.environment exWide.directory =
      .ok { indent := 9223372036854775808 } ∧
    Workspace.build ⟨exWide.files, exWide.environment, { indent := 9223372036854775808 }⟩ ⟨"a.json"⟩ =
      .ok exDeep ∧
    (2, ⟨3, some 2, "", none⟩) ∈ exDeep.entries ∧
    ¬ 2 * (9223372036854775808 : UInt64).toNat < 2 ^ 64 ∧
    Forest.flatLine? 9223372036854775808 1 ⟨2, some 1, "", none⟩ = none ∧
    (exWide.runRequest (some (.flat ⟨"a.json"⟩))).out = "" ∧
    (exWide.runRequest (some (.flat ⟨"a.json"⟩))).exit = 101 := by
  have hs : Settings.load exWide.files exWide.environment exWide.directory =
      .ok { indent := 9223372036854775808 } := eq_ok_of_toOption (by decide +kernel)
  have hload : Workspace.load ⟨exWide.files, exWide.environment, { indent := 9223372036854775808 }⟩
      ⟨"a.json"⟩ = .ok exChain := eq_ok_of_toOption (by decide +kernel)
  have hroom : ¬ exDeep.HasRoom 9223372036854775808 := by
    rw [Forest.HasRoom, entries_exDeep]
    decide
  have hrun := runRequest_flat_of_not_hasRoom hs hload thread_exChain hroom
  refine ⟨hs, ?_, ?_, by decide, by decide +kernel, ?_, ?_⟩
  · rw [build_of_load hload, thread_ok thread_exChain]
  · rw [entries_exDeep]
    decide
  · rw [hrun]
    rfl
  · rw [hrun]
    rfl

end Command

end Discussion
