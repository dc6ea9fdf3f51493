import Discussion.Proofs.Command.Exit

/-!
# Summaries of several files

A summary goes through its files one after the other and remembers the first error. Here it is compared with
the summaries of the single files.

* `Outcome.followedBy o p`: what two runs print together; the first of them that fails decides how they end.
* `Outcome.inTurn runs`: the same for any number of runs.

Results:
1. `Outcome.out_inTurn`, `Outcome.exit_inTurn_eq_zero_iff`, `Outcome.inTurn_of_firstWith`: what runs in turn
   print, and how they end.
2. `runStats_eq_inTurn`: a summary of files is the summaries of the single files in turn.
3. `summary_of_files`: the same for whole runs, with what is printed for each file.
-/

namespace Discussion.Command

open Threaded (FirstWith firstWith_cons exists_firstWith_iff)
open Workspace (bind_eq_ok_iff)

/-! ## Runs in turn -/

namespace Outcome

/-- What one run prints and then another. The first of them that fails decides how they end. -/
def followedBy (o p : Outcome) : Outcome where
  out := o.out ++ p.out
  err := if o.exit = 0 then p.err else o.err
  exit := if o.exit = 0 then p.exit else o.exit

/-- What runs print one after the other. The first of them that fails decides how they end. -/
def inTurn (runs : List Outcome) : Outcome :=
  runs.foldr followedBy {}

theorem inTurn_cons (o : Outcome) (runs : List Outcome) :
    inTurn (o :: runs) = o.followedBy (inTurn runs) := rfl

theorem followedBy_of_exit_eq_zero {o : Outcome} (ho : o.exit = 0) (p : Outcome) :
    o.followedBy p = { p with out := o.out ++ p.out } := by
  rw [followedBy, if_pos ho, if_pos ho]

theorem followedBy_of_exit_ne_zero {o : Outcome} (ho : o.exit ≠ 0) (p : Outcome) :
    o.followedBy p = { o with out := o.out ++ p.out } := by
  rw [followedBy, if_neg ho, if_neg ho]

theorem out_inTurn (runs : List Outcome) : (inTurn runs).out = String.join (runs.map out) := by
  induction runs with
  | nil => exact String.join_nil.symm
  | cons o runs ih =>
    rw [List.map_cons, String.join_cons, ← ih]
    rfl

theorem exit_inTurn_eq_zero_iff {runs : List Outcome} :
    (inTurn runs).exit = 0 ↔ ∀ o ∈ runs, o.exit = 0 := by
  induction runs with
  | nil => exact ⟨fun _ _ => nofun, fun _ => rfl⟩
  | cons o runs ih =>
    rw [List.forall_mem_cons, ← ih, inTurn_cons]
    by_cases ho : o.exit = 0
    · rw [followedBy_of_exit_eq_zero ho]
      exact (and_iff_right ho).symm
    · rw [followedBy_of_exit_ne_zero ho]
      exact ⟨fun hzero => absurd hzero ho, fun h => h.1⟩

theorem inTurn_of_firstWith {runs : List Outcome} {o : Outcome}
    (h : FirstWith (fun o => o.exit ≠ 0) runs o) :
    (inTurn runs).exit = o.exit ∧ (inTurn runs).err = o.err := by
  induction runs with
  | nil => exact absurd h.mem.1 List.not_mem_nil
  | cons p runs ih =>
    rw [inTurn_cons]
    rcases firstWith_cons.1 h with ⟨hp, rfl⟩ | ⟨hp, hrest⟩
    · rw [followedBy_of_exit_ne_zero hp]
      exact ⟨rfl, rfl⟩
    · rw [followedBy_of_exit_eq_zero (not_not.1 hp)]
      exact ih hrest

end Outcome

/-! ## Files in turn -/

variable {h : Host} {w : Workspace} {file : Path} {s : Settings} {f : Forest Post} {e : Error}

theorem exitCode_ne_zero (e : Error) : e.exitCode ≠ 0 := by
  cases e <;> exact nofun

theorem stats_of_build (hf : w.build file = .ok f) : w.stats file = .ok f.stats := by
  rw [Workspace.stats_eq, hf]
  rfl

theorem stats_of_build_error (he : w.build file = .error e) : w.stats file = .error e := by
  rw [Workspace.stats_eq, he]
  rfl

/-- A file without an error adds its lines to those of the others. -/
theorem runStats_cons_of_ok {n : Stats} (hn : w.stats file = .ok n) (files : List Path) :
    h.runStats w (file :: files) =
      { h.runStats w files with
        out := h.labelLine file.text n.summary ++ (h.runStats w files).out } := by
  unfold Host.runStats Workspace.statsMany firstError?
  simp only [List.map_cons, hn, List.findSome?_cons, String.join_cons, Host.statsBlock]
  split <;> rfl

/-- A file with an error adds its lines too, and its error is the one that counts. -/
theorem runStats_cons_of_error (he : w.stats file = .error e) (files : List Path) :
    h.runStats w (file :: files) =
      { h.failing e with
        out := h.labelLine file.text "failed" ++ h.failureLine e ++ (h.runStats w files).out } := by
  unfold Host.runStats Workspace.statsMany firstError?
  simp only [List.map_cons, he, List.findSome?_cons, String.join_cons, Host.statsBlock]
  split <;> rfl

theorem runStats_single_of_ok {n : Stats} (hn : w.stats file = .ok n) :
    h.runStats w [file] = { out := h.labelLine file.text n.summary } := by
  rw [runStats_cons_of_ok hn []]
  exact congrArg (fun out => { out : Outcome }) String.append_empty

theorem runStats_single_of_error (he : w.stats file = .error e) :
    h.runStats w [file] =
      { h.failing e with out := h.labelLine file.text "failed" ++ h.failureLine e } := by
  rw [runStats_cons_of_error he []]
  exact congrArg (fun out => { h.failing e with out }) String.append_empty

/-- Summing up files is summing up the first one and then the others. -/
theorem runStats_cons (h : Host) (w : Workspace) (file : Path) (files : List Path) :
    h.runStats w (file :: files) = (h.runStats w [file]).followedBy (h.runStats w files) := by
  cases hstats : w.stats file with
  | ok n =>
    rw [runStats_cons_of_ok hstats, runStats_single_of_ok hstats, Outcome.followedBy_of_exit_eq_zero]
    rfl
  | error e =>
    rw [runStats_cons_of_error hstats, runStats_single_of_error hstats,
      Outcome.followedBy_of_exit_ne_zero]
    exact exitCode_ne_zero e

theorem runStats_eq_inTurn (h : Host) (w : Workspace) (files : List Path) :
    h.runStats w files = Outcome.inTurn (files.map fun file => h.runStats w [file]) := by
  induction files with
  | nil => rfl
  | cons file files ih => rw [List.map_cons, Outcome.inTurn_cons, ← ih, runStats_cons]

theorem out_runStats (h : Host) (w : Workspace) (files : List Path) :
    (h.runStats w files).out = String.join (files.map fun file => (h.runStats w [file]).out) := by
  rw [runStats_eq_inTurn, Outcome.out_inTurn, List.map_map]
  rfl

theorem exit_runStats_eq_zero_iff {files : List Path} :
    (h.runStats w files).exit = 0 ↔ ∀ file ∈ files, (h.runStats w [file]).exit = 0 := by
  rw [runStats_eq_inTurn, Outcome.exit_inTurn_eq_zero_iff, List.forall_mem_map]

/-- If there is an error, the first file that has one decides how the summary ends. -/
theorem exists_firstWith_of_runStats {files : List Path} (hexit : (h.runStats w files).exit ≠ 0) :
    ∃ file, FirstWith (fun file => (h.runStats w [file]).exit ≠ 0) files file ∧
      (h.runStats w files).exit = (h.runStats w [file]).exit ∧
      (h.runStats w files).err = (h.runStats w [file]).err := by
  have hsome : ∃ file ∈ files, (h.runStats w [file]).exit ≠ 0 := by
    by_contra hnone
    push Not at hnone
    exact hexit (exit_runStats_eq_zero_iff.2 hnone)
  obtain ⟨file, hfirst⟩ := exists_firstWith_iff.2 hsome
  refine ⟨file, hfirst, ?_⟩
  obtain ⟨before, after, rfl, hbefore, hfails⟩ := hfirst
  rw [runStats_eq_inTurn]
  refine Outcome.inTurn_of_firstWith ⟨before.map fun file => h.runStats w [file],
    after.map fun file => h.runStats w [file], ?_, List.forall_mem_map.2 hbefore, hfails⟩
  rw [List.map_append, List.map_cons]

/-! ## Whole runs -/

/-- What is said of the amount of detail that is asked for. -/
def detailNotice (detail : Nat) : String :=
  if detail ≤ 3 then "" else excessiveDetail

theorem request_run_eq (h : Host) (r : Option Request) (detail : Nat) :
    (Line.request r detail).run h =
      { h.runRequest r with err := detailNotice detail ++ (h.runRequest r).err } := by
  by_cases hdetail : detail ≤ 3
  · simp [Line.run, detailNotice, hdetail]
  · simp [Line.run, detailNotice, hdetail]

theorem runRequest_stats (hs : Settings.load h.files h.environment h.directory = .ok s)
    (files : List Path) :
    h.runRequest (some (.stats files)) = h.runStats ⟨h.files, h.environment, s⟩ files := by
  show h.outcome (Settings.load h.files h.environment h.directory) _ = _
  rw [hs]
  rfl

theorem discussions_of_load (hs : Settings.load h.files h.environment h.directory = .ok s) :
    h.discussions file = Workspace.build ⟨h.files, h.environment, s⟩ file := by
  unfold Host.discussions
  rw [hs]
  rfl

theorem build_eq_error_iff (hs : Settings.load h.files h.environment h.directory = .ok s) :
    Workspace.build ⟨h.files, h.environment, s⟩ file = .error e ↔
      FirstFailing (Fails h file) Fault.order e := by
  rw [← discussions_eq_error_iff, discussions_of_load hs]

theorem exit_runStats_single_eq_zero_iff
    (hs : Settings.load h.files h.environment h.directory = .ok s) :
    (h.runStats ⟨h.files, h.environment, s⟩ [file]).exit = 0 ↔ ∀ fault e, ¬ Fails h file fault e := by
  cases hbuild : Workspace.build ⟨h.files, h.environment, s⟩ file with
  | ok f =>
    rw [runStats_single_of_ok (stats_of_build hbuild)]
    exact iff_of_true rfl (not_fails_of_discussions ((discussions_of_load hs).trans hbuild))
  | error e =>
    obtain ⟨fault, -, hfails⟩ := (build_eq_error_iff hs).1 hbuild
    rw [runStats_single_of_error (stats_of_build_error hbuild)]
    exact iff_of_false (exitCode_ne_zero e) fun hnone => hnone fault e hfails

/-- A summary of files prints what the summaries of the single files print, one after the other, whether
they fail or not. It ends well exactly if all of these do. Otherwise it ends like the summary of the first
file that fails: with the same exit code, and with the same error. The summary of one file shows the numbers
of its discussions, or else its first fault. -/
theorem summary_of_files (h : Host) (s : Settings)
    (hs : Settings.load h.files h.environment h.directory = .ok s) (detail : Nat) (files : List Path) :
    let run (files : List Path) := (Line.request (some (.stats files)) detail).run h
    (run files).out = String.join (files.map fun file => (run [file]).out) ∧
    ((run files).exit = 0 ↔ ∀ file ∈ files, (run [file]).exit = 0) ∧
    ((run files).exit ≠ 0 → ∃ file, FirstWith (fun file => (run [file]).exit ≠ 0) files file ∧
      (run files).exit = (run [file]).exit ∧ (run files).err = (run [file]).err) ∧
    (∀ file, (run [file]).exit = 0 ↔ ∀ fault e, ¬ Fails h file fault e) ∧
    (∀ file f, Workspace.build ⟨h.files, h.environment, s⟩ file = .ok f →
      run [file] = { out := h.labelLine file.text f.stats.summary, err := detailNotice detail }) ∧
    ∀ file e, FirstFailing (Fails h file) Fault.order e →
      run [file] = { out := h.labelLine file.text "failed" ++ h.failureLine e
                     err := detailNotice detail ++ h.errorLine e
                     exit := e.exitCode } := by
  intro run
  let w : Workspace := ⟨h.files, h.environment, s⟩
  have hrun : ∀ files, run files =
      { h.runStats w files with err := detailNotice detail ++ (h.runStats w files).err } := by
    intro files
    show (Line.request (some (.stats files)) detail).run h = _
    rw [request_run_eq, runRequest_stats hs]
  -- what is said of the detail stands before every error, so it changes no comparison of two runs
  simp only [hrun]
  refine ⟨out_runStats h w files, exit_runStats_eq_zero_iff, fun hexit => ?_,
    fun file => exit_runStats_single_eq_zero_iff hs, fun file f hf => ?_, fun file e hfails => ?_⟩
  · obtain ⟨file, hfirst, hcode, herr⟩ := exists_firstWith_of_runStats hexit
    exact ⟨file, hfirst, hcode, congrArg (detailNotice detail ++ ·) herr⟩
  · rw [runStats_single_of_ok (stats_of_build hf)]
    exact congrArg (fun err => { out := _, err : Outcome }) String.append_empty
  · rw [runStats_single_of_error (stats_of_build_error ((build_eq_error_iff hs).2 hfails))]
    rfl

/-- A file that is not there between two mentions of one that can be read, and then a strange extension. -/
theorem summary_of_files_of_posts :
    let o := (exHost "indent = 3").run ["stats", "posts.json", "none.json", "posts.json", "posts.yaml"]
    o.out = "posts.json: posts: 2, threads: 1, promoted: 0, depth: 2, leaves: 1\n" ++
      "none.json: failed\n  ✗ file not found: none.json\n" ++
      "posts.json: posts: 2, threads: 1, promoted: 0, depth: 2, leaves: 1\n" ++
      "posts.yaml: failed\n  ✗ unsupported thread file format: posts.yaml\n" ∧
    o.err = "error: file not found: none.json\n" ∧ o.exit = 66 := by
  intro o
  let w : Workspace := ⟨(exHost "indent = 3").files, {}, ⟨0, 3, .json⟩⟩
  let run files := (Line.request (some (.stats files)) 0).run (exHost "indent = 3")
  have hread : (exHost "indent = 3").files.read ⟨"/work/.replytree.toml"⟩ = .ok "indent = 3" := rfl
  have htoml : Overlay.ofToml? "indent = 3" = some ⟨none, some 3, none⟩ := by decide +kernel
  have hload := load_exHost (Overlay.FromFile.read hread htoml).eq_ok
  have hposts : w.load ⟨"posts.json"⟩ = .ok [⟨1, none, "", none⟩, ⟨2, some 1, "", none⟩] := by
    decide +kernel
  have hbuild : w.build ⟨"posts.json"⟩ =
      .ok ⟨[.node ⟨1, none, "", none⟩ [.leaf ⟨2, some 1, "", none⟩]]⟩ :=
    (Workspace.build_of_load hposts).trans (Workspace.thread_ok
      (Forest.Arranges.thread_eq ⟨by decide, by decide⟩ (by decide) (by decide)))
  have hfault {file : Path} {e : Error} (he : w.load file = .error e) :
      FirstFailing (Fails (exHost "indent = 3") file) Fault.order e :=
    (build_eq_error_iff hload).1 (Workspace.bind_eq_error_iff.2 (.inl he))
  obtain ⟨hout, hzero, hfirst, _, hok, herror⟩ := summary_of_files (exHost "indent = 3") _ hload 0
    [⟨"posts.json"⟩, ⟨"none.json"⟩, ⟨"posts.json"⟩, ⟨"posts.yaml"⟩]
  have hgood : run [⟨"posts.json"⟩] = _ := hok _ _ hbuild
  have hmissing : run [⟨"none.json"⟩] = _ :=
    herror _ (.fileNotFound ⟨"none.json"⟩) (hfault (by decide +kernel))
  have hstrange : run [⟨"posts.yaml"⟩] = _ :=
    herror _ (.unsupportedFormat ⟨"posts.yaml"⟩) (hfault (by decide +kernel))
  have hends : (run [⟨"posts.json"⟩]).exit = 0 := by rw [hgood]
  have hfails : (run [⟨"none.json"⟩]).exit ≠ 0 := by
    rw [hmissing]
    exact exitCode_ne_zero (.fileNotFound ⟨"none.json"⟩)
  have hdecides : FirstWith (fun file => (run [file]).exit ≠ 0)
      [⟨"posts.json"⟩, ⟨"none.json"⟩, ⟨"posts.json"⟩, ⟨"posts.yaml"⟩] ⟨"none.json"⟩ :=
    ⟨[⟨"posts.json"⟩], _, rfl, List.forall_mem_singleton.2 (not_not.2 hends), hfails⟩
  obtain ⟨file, hfile, hcode, herr⟩ := hfirst fun h => hdecides.mem.2 (hzero.1 h _ hdecides.mem.1)
  cases hfile.unique hdecides
  refine ⟨hout.trans ?_, herr.trans ?_, hcode.trans ?_⟩
  · show String.join [(run _).out, (run _).out, (run _).out, (run _).out] = _
    rw [hgood, hmissing, hstrange]
    decide +kernel
  · show (run _).err = _
    rw [hmissing]
    decide +kernel
  · show (run _).exit = _
    rw [hmissing]
    rfl

end Discussion.Command
