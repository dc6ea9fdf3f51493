import Discussion.Command.Run
import Discussion.Proofs.Report.Indentation
import Discussion.Proofs.Settings.Layers
import Discussion.Proofs.Threading.Outcome

/-!
# Faults and exit codes

What can go wrong when a request reports on the discussions of a file, and which of several faults
decides how the run ends.

* `Fails h file fault e`: the host has the fault, whatever other faults it has; a run that notices it
  first ends with the error `e`.
* `Fault.order`, `Fault.code`: in which order faults are noticed, and the exit code of each.
* `ReportsOn h file r`: the request reports on the file.

A fault is described by itself and not by the stage that notices it. That a file cannot be decoded, for
example, depends on the settings that are loaded and on the text that is read, but not on how the
program gets there.

Results:
1. `discussions_eq_error_iff`: the discussions of a file are built, or the first fault tells the error.
2. `exit_of_faults`: how the run ends, and that it prints nothing unless it ends well.
-/

namespace Discussion

open Threaded (FirstWith firstWith_cons)
open Workspace (bind_eq_ok_iff bind_eq_error_iff eq_iff_of_total)

namespace Command

/-! ## Faults -/

/-- What can go wrong when the discussions of a file are reported. -/
inductive Fault where
  /-- The settings cannot be loaded. -/
  | settings
  /-- The extension of the path stands for no format. -/
  | extension
  /-- There is nothing at the path, or it is gone when it is read. -/
  | missing
  /-- What is at the path is not a file. -/
  | noFile
  /-- The file cannot be read. -/
  | unreadable
  /-- The text of the file is not a document in its format. -/
  | undecodable
  /-- The posts of the document are not a forest. -/
  | unthreadable
deriving DecidableEq, Repr

namespace Fault

/-- The order in which faults are noticed. -/
def order : List Fault :=
  [settings, extension, missing, noFile, unreadable, undecodable, unthreadable]

theorem mem_order (fault : Fault) : fault ∈ order := by
  cases fault <;> decide

/-- The exit code of a run that ends with the fault. -/
def code : Fault → Nat
  | settings => 78
  | extension => 65
  | missing => 66
  | noFile => 65
  | unreadable => 74
  | undecodable => 65
  | unthreadable => 65

end Fault

/-- The format of the file at a path: the one its extension names, in letters of either case, or
without an extension the default. -/
inductive FormatAt (s : Settings) (p : Path) : Format → Prop
  | extension {ext : String} {format : Format} : p.extension? = some ext →
      lowerCase ext = format.name → FormatAt s p format
  | default : p.extension? = none → FormatAt s p s.defaultFormat

/-- The document in a text of a format. -/
def decode (format : Format) (text : String) : Except String Document :=
  match format with
  | .json => Document.ofJson text
  | .toml => Document.ofToml text

/-- The path at which a file is looked for. -/
def Host.target (h : Host) (file : Path) : Path :=
  file.expand h.environment

/-- The host has the fault. A run that notices no other fault before ends with the error. -/
inductive Fails (h : Host) (file : Path) : Fault → Error → Prop
  | settings {e : Error} : Settings.load h.files h.environment h.directory = .error e →
      Fails h file .settings e
  | extension {ext : String} : (h.target file).extension? = some ext →
      (∀ format : Format, lowerCase ext ≠ format.name) →
      Fails h file .extension (.unsupportedFormat (h.target file))
  | missing : (h.files.exists? (h.target file) = false ∨
        h.files.read (h.target file) = .error .notFound) →
      Fails h file .missing (.fileNotFound (h.target file))
  | noFile : h.files.exists? (h.target file) → h.files.isFile (h.target file) = false →
      Fails h file .noFile (.unparsable (h.target file) "not a file")
  | unreadable {e : ReadError} : h.files.read (h.target file) = .error e → e ≠ .notFound →
      Fails h file .unreadable (.failed ("read thread file: " ++ (h.target file).text))
  | undecodable {s : Settings} {format : Format} {text reason : String} :
      Settings.load h.files h.environment h.directory = .ok s → FormatAt s (h.target file) format →
      h.files.read (h.target file) = .ok text → decode format text = .error reason →
      Fails h file .undecodable (.unparsable (h.target file) reason)
  | unthreadable {s : Settings} {format : Format} {text : String} {doc : Document}
      {e : ThreadingError UInt64} :
      Settings.load h.files h.environment h.directory = .ok s → FormatAt s (h.target file) format →
      h.files.read (h.target file) = .ok text → decode format text = .ok doc →
      Forest.thread (doc.posts.map (Post.normalize s.rootParentId)) = .error e →
      Fails h file .unthreadable (.threading e.inspected)

theorem Fails.exitCode {h : Host} {file : Path} {fault : Fault} {e : Error}
    (hfails : Fails h file fault e) : e.exitCode = fault.code := by
  cases hfails with
  | settings hload =>
    obtain ⟨reason, rfl⟩ := Settings.load_eq_error hload
    rfl
  | extension | missing | noFile | unreadable | undecodable | unthreadable => rfl

/-! ## Stages -/

section Stages

variable {w : Workspace} {h : Host} {file p : Path} {s : Settings} {format : Format} {text : String}
  {e : Error}

theorem formatOf_iff (w : Workspace) (p : Path) :
    (∀ format, w.formatOf p = .ok format ↔ FormatAt w.settings p format) ∧
    ∀ e, w.formatOf p = .error e ↔
      (∃ ext, p.extension? = some ext ∧ ∀ format : Format, lowerCase ext ≠ format.name) ∧
        e = .unsupportedFormat p := by
  refine eq_iff_of_total ?_ ?_ ?_
  · cases hext : p.extension? with
    | none => exact .inl ⟨_, .default hext⟩
    | some ext =>
      by_cases hnamed : ∃ format : Format, lowerCase ext = format.name
      · obtain ⟨format, hname⟩ := hnamed
        exact .inl ⟨format, .extension hext hname⟩
      · exact .inr ⟨_, ⟨ext, rfl, not_exists.1 hnamed⟩, rfl⟩
  · rintro format (⟨hext, hname⟩ | hext)
    · have hformat := Format.ofExtension?_eq_some_iff.2 hname
      simp only [Workspace.formatOf, hext, hformat]
    · simp only [Workspace.formatOf, hext]
  · rintro _ ⟨⟨ext, hext, hnone⟩, rfl⟩
    have hformat := Format.ofExtension?_eq_none_iff.2 hnone
    simp only [Workspace.formatOf, hext, hformat]

theorem FormatAt.unique {format' : Format} (hformat : FormatAt s p format)
    (hformat' : FormatAt s p format') : format = format' := by
  have hok := ((formatOf_iff ⟨⟨fun _ => none⟩, {}, s⟩ p).1 format).2 hformat
  rw [((formatOf_iff _ p).1 format').2 hformat'] at hok
  exact (Except.ok.inj hok).symm

/-- What looking at a path and reading it tell together. -/
theorem look (fs : FileSystem) (p : Path) :
    (fs.exists? p = false ∧ fs.read p = .error .notFound) ∨
      (fs.exists? p = true ∧ fs.isFile p = false ∧ fs.read p = .error .isDirectory) ∨
      (fs.exists? p = true ∧ fs.isFile p = true) := by
  unfold FileSystem.exists? FileSystem.isFile FileSystem.read
  cases fs.entry? p with
  | none => exact .inl ⟨rfl, rfl⟩
  | some entry =>
    cases entry with
    | directory => exact .inr (.inl ⟨rfl, rfl, rfl⟩)
    | file content => exact .inr (.inr ⟨rfl, rfl⟩)

theorem readText_iff (h : Host) (file : Path) (s : Settings) :
    (∀ text, (⟨h.files, h.environment, s⟩ : Workspace).readText (h.target file) = .ok text ↔
      h.files.read (h.target file) = .ok text) ∧
    ∀ e, (⟨h.files, h.environment, s⟩ : Workspace).readText (h.target file) = .error e ↔
      FirstFailing (Fails h file) [.missing, .noFile, .unreadable] e := by
  have hlook := look h.files (h.target file)
  refine eq_iff_of_total ?_ ?_ ?_
  · cases hread : h.files.read (h.target file) with
    | ok text => exact .inl ⟨text, rfl⟩
    | error e =>
      refine .inr (exists_firstFailing_iff.2 ?_)
      by_cases he : e = .notFound
      · exact ⟨.missing, by decide, _, .missing (.inr (he ▸ hread))⟩
      · exact ⟨.unreadable, by decide, _, .unreadable hread he⟩
  · intro text hread
    rcases hlook with ⟨-, hread'⟩ | ⟨-, -, hread'⟩ | ⟨hexists, hfile⟩
    · cases hread.symm.trans hread'
    · cases hread.symm.trans hread'
    · simp [Workspace.readText, hexists, hfile, hread]
  · rintro e ⟨fault, hfirst, hfails⟩
    simp only [firstWith_cons] at hfirst
    rcases hfirst with ⟨-, rfl⟩ | ⟨-, ⟨-, rfl⟩ | ⟨hnoFile, ⟨-, rfl⟩ | ⟨-, hnil⟩⟩⟩
    · cases hfails with
      | missing hmissing =>
        rcases hlook with ⟨hexists, -⟩ | ⟨hexists, -, hread⟩ | ⟨hexists, hfile⟩
        · simp [Workspace.readText, hexists]
        · simp [hexists, hread] at hmissing
        · have hread := hmissing.resolve_left (by simp [hexists])
          simp [Workspace.readText, hexists, hfile, hread]
    · cases hfails with
      | noFile hexists hfile => simp [Workspace.readText, hexists, hfile]
    · cases hfails with
      | unreadable hread hne =>
        rcases hlook with ⟨-, hread'⟩ | ⟨hexists, hfile, -⟩ | ⟨hexists, hfile⟩
        · cases hread.symm.trans hread'
          exact absurd rfl hne
        · exact absurd ⟨_, .noFile hexists hfile⟩ hnoFile
        · simp [Workspace.readText, hexists, hfile, hread]
    · exact absurd hnil.mem.1 List.not_mem_nil

theorem parse_eq (p : Path) (format : Format) (text : String) :
    Workspace.parse p format text = (decode format text).mapError (.unparsable p) := by
  cases format with
  | json =>
    simp only [Workspace.parse, decode]
    cases Document.ofJson text <;> rfl
  | toml =>
    simp only [Workspace.parse, decode]
    cases Document.ofToml text <;> rfl

theorem parse_iff (p : Path) (format : Format) (text : String) :
    (∀ doc, Workspace.parse p format text = .ok doc ↔ decode format text = .ok doc) ∧
    ∀ e, Workspace.parse p format text = .error e ↔
      ∃ reason, decode format text = .error reason ∧ e = .unparsable p reason := by
  rw [parse_eq]
  refine eq_iff_of_total ?_ ?_ ?_
  · cases decode format text with
    | ok doc => exact .inl ⟨doc, rfl⟩
    | error reason => exact .inr ⟨_, reason, rfl, rfl⟩
  · intro doc hdoc
    rw [hdoc]
    rfl
  · rintro _ ⟨reason, hreason, rfl⟩
    rw [hreason]
    rfl

theorem thread_eq_error_iff {ps : List Post} :
    Workspace.thread ps = .error e ↔ ∃ e', Forest.thread ps = .error e' ∧ e = .threading e'.inspected := by
  unfold Workspace.thread
  cases Forest.thread ps with
  | ok f => exact ⟨nofun, nofun⟩
  | error e' =>
    constructor
    · rintro ⟨⟩
      exact ⟨e', rfl, rfl⟩
    · rintro ⟨_, ⟨⟩, rfl⟩
      rfl

theorem build_eq (w : Workspace) (file : Path) : w.build file =
    w.formatOf (w.resolve file) >>= fun format => w.readText (w.resolve file) >>= fun text =>
      Workspace.parse (w.resolve file) format text >>= fun doc =>
        Workspace.thread (doc.posts.map (Post.normalize w.settings.rootParentId)) := by
  simp only [Workspace.build, Workspace.load, bind_assoc, pure_bind]

/-- The discussions of a file, by the settings that are loaded. -/
def Host.discussions (h : Host) (file : Path) : Except Error (Forest Post) := do
  let s ← Settings.load h.files h.environment h.directory
  Workspace.build ⟨h.files, h.environment, s⟩ file

theorem discussions_eq_error_iff :
    h.discussions file = .error e ↔ FirstFailing (Fails h file) Fault.order e := by
  refine bind_eq_error_iff_first (fun e => ⟨.settings, fun | .settings hload => hload⟩)
    (fun s hs e => ?_) e
  rw [build_eq]
  refine bind_eq_error_iff_first (fun e => ((formatOf_iff _ _).2 e).trans ?_)
    (fun format hformat e => ?_) e
  · constructor
    · rintro ⟨⟨ext, hext, hnone⟩, rfl⟩
      exact .extension hext hnone
    · intro hfails
      cases hfails with
      | extension hext hnone => exact ⟨⟨_, hext, hnone⟩, rfl⟩
  have hformat := ((formatOf_iff _ _).1 _).1 hformat
  refine bind_eq_error_iff_append (readText_iff h file s).2 (fun text htext e => ?_) e
  have hread := ((readText_iff h file s).1 _).1 htext
  -- The faults of a document speak of whatever settings, format and text there are: these.
  refine bind_eq_error_iff_first (fun e => ((parse_iff _ _ _).2 e).trans ?_) (fun doc hdoc e => ?_) e
  · constructor
    · rintro ⟨reason, hreason, rfl⟩
      exact .undecodable hs hformat hread hreason
    · intro hfails
      cases hfails with
      | undecodable hs' hformat' hread' hreason =>
        cases hs.symm.trans hs'
        cases hread.symm.trans hread'
        cases hformat.unique hformat'
        exact ⟨_, hreason, rfl⟩
  have hdoc := ((parse_iff _ _ _).1 _).1 hdoc
  rw [thread_eq_error_iff, firstFailing_singleton]
  constructor
  · rintro ⟨e', he', rfl⟩
    exact .unthreadable hs hformat hread hdoc he'
  · intro hfails
    cases hfails with
    | unthreadable hs' hformat' hread' hdoc' he' =>
      cases hs.symm.trans hs'
      cases hread.symm.trans hread'
      cases hformat.unique hformat'
      cases hdoc.symm.trans hdoc'
      exact ⟨_, he', rfl⟩

theorem not_fails_of_discussions {f : Forest Post} (hf : h.discussions file = .ok f) (fault : Fault)
    (e : Error) : ¬ Fails h file fault e := by
  intro hfails
  obtain ⟨e', he'⟩ := exists_firstFailing_iff.2 ⟨fault, fault.mem_order, e, hfails⟩
  cases hf.symm.trans (discussions_eq_error_iff.2 he')

end Stages

/-! ## Requests -/

/-- The request reports on the discussions of the file. In a flat listing there is room for every
indentation; otherwise it breaks off. -/
inductive ReportsOn (h : Host) (file : Path) : Request → Prop
  | tree : ReportsOn h file (.tree file)
  | flat : (∀ s f, Settings.load h.files h.environment h.directory = .ok s →
        Workspace.build ⟨h.files, h.environment, s⟩ file = .ok f → f.HasRoom s.indent) →
      ReportsOn h file (.flat file)
  | leaves : ReportsOn h file (.leaves file)
  | json : ReportsOn h file (.json file)

/-- The whole report of a request on discussions. -/
def report (s : Settings) (f : Forest Post) : Request → String
  | .tree _ => String.join f.postDrawings
  | .flat _ => unlines (f.flatLines s.indent)
  | .leaves _ => unlines f.leafLines
  | .json _ => Json.prettyText f.postData ++ "\n"
  | _ => ""

section Requests

variable {h : Host} {file : Path} {r : Request} {s : Settings} {f : Forest Post} {e : Error}

theorem runRequest_eq (hr : ReportsOn h file r) : h.runRequest (some r) =
    h.outcome (Settings.load h.files h.environment h.directory) fun s => r.run h s := by
  cases hr <;> rfl

theorem run_of_build_error (hr : ReportsOn h file r)
    (he : Workspace.build ⟨h.files, h.environment, s⟩ file = .error e) : r.run h s = h.failing e := by
  cases hr <;>
  · show h.outcome (Workspace.build ⟨h.files, h.environment, s⟩ file) _ = _
    rw [he]
    rfl

theorem runRequest_of_error (hr : ReportsOn h file r) (he : h.discussions file = .error e) :
    h.runRequest (some r) = h.failing e := by
  rw [runRequest_eq hr]
  rcases bind_eq_error_iff.1 he with hload | ⟨s, hs, hbuild⟩
  · rw [hload]
    rfl
  · rw [hs]
    exact run_of_build_error hr hbuild

theorem runRequest_of_ok (hr : ReportsOn h file r)
    (hs : Settings.load h.files h.environment h.directory = .ok s)
    (hf : Workspace.build ⟨h.files, h.environment, s⟩ file = .ok f) :
    (h.runRequest (some r)).out = report s f r ∧ (h.runRequest (some r)).exit = 0 := by
  have hprint (print : Forest Post → Outcome) :
      h.outcome (Workspace.build ⟨h.files, h.environment, s⟩ file) print = print f := by
    rw [hf]
    rfl
  rw [runRequest_eq hr, hs]
  show (r.run h s).out = _ ∧ (r.run h s).exit = _
  cases hr with
  | tree | leaves | json =>
    simp only [Request.run, hprint]
    exact ⟨rfl, trivial⟩
  | flat hroom =>
    simp only [Request.run, hprint, Forest.flatLines?_of_hasRoom (hroom s f hs hf), Option.elim_some]
    exact ⟨rfl, trivial⟩

/-- More detail than there is changes what is said beside the output, and nothing else. -/
theorem run_request (h : Host) (r : Option Request) (detail : Nat) :
    ((Line.request r detail).run h).out = (h.runRequest r).out ∧
      ((Line.request r detail).run h).exit = (h.runRequest r).exit := by
  by_cases hdetail : detail ≤ 3
  · simp [Line.run, hdetail]
  · simp [Line.run, hdetail]

/-- A request that reports on the discussions of a file ends well exactly if there is no fault, and then
prints the whole report. Otherwise the exit code is that of the first fault, however many others there
are, and nothing is printed but the error. -/
theorem exit_of_faults (h : Host) (file : Path) (r : Request) (hr : ReportsOn h file r)
    (detail : Nat) :
    let o := (Line.request (some r) detail).run h
    (o.exit = 0 ↔ ∀ fault e, ¬ Fails h file fault e) ∧
    (∀ fault, FirstWith (fun fault => ∃ e, Fails h file fault e) Fault.order fault →
      o.exit = fault.code) ∧
    (o.exit ≠ 0 → o.out = "") ∧
    (o.exit = 0 → ∃ s f, Settings.load h.files h.environment h.directory = .ok s ∧
      Workspace.build ⟨h.files, h.environment, s⟩ file = .ok f ∧ o.out = report s f r) := by
  intro o
  obtain ⟨hout, hexit⟩ : o.out = (h.runRequest (some r)).out ∧ o.exit = (h.runRequest (some r)).exit :=
    run_request h (some r) detail
  rw [hout, hexit]
  cases hdiscussions : h.discussions file with
  | ok f =>
    have hnone := not_fails_of_discussions hdiscussions
    obtain ⟨s, hs, hf⟩ := bind_eq_ok_iff.1 hdiscussions
    obtain ⟨hreport, hzero⟩ := runRequest_of_ok hr hs hf
    refine ⟨⟨fun _ => hnone, fun _ => hzero⟩, fun fault hfirst => ?_, fun hne => absurd hzero hne,
      fun _ => ⟨s, f, hs, hf, hreport⟩⟩
    obtain ⟨-, e, hfails⟩ := hfirst.mem
    exact absurd hfails (hnone fault e)
  | error e =>
    obtain ⟨fault, hfirst, hfails⟩ := discussions_eq_error_iff.1 hdiscussions
    have hcode : e.exitCode ≠ 0 := by
      rw [hfails.exitCode]
      cases fault <;> decide
    rw [runRequest_of_error hr hdiscussions]
    refine ⟨⟨fun hzero => absurd hzero hcode, fun hnone => absurd hfails (hnone fault e)⟩,
      fun fault' hfirst' => ?_, fun _ => rfl, fun hzero => absurd hzero hcode⟩
    rw [hfirst'.unique hfirst]
    exact hfails.exitCode

/-- A post and a reply, below settings of the given text. -/
def exHost (own : String) : Host where
  files := .ofEntries [(⟨"/work/.replytree.toml"⟩, .file (.ok own)),
    (⟨"posts.json"⟩, .file (.ok "[[1], [2, 1]]"))]
  environment := {}
  directory := some ⟨"/work"⟩

theorem load_exHost {own : String} {x : Except Error Overlay}
    (hown : Overlay.ofFile? (exHost own).files (some ⟨"/work/.replytree.toml"⟩) = x) :
    Settings.load (exHost own).files {} (some ⟨"/work"⟩) = x.map ({} : Settings).overlay := by
  have hglobal : globalPath? {} = none := by decide +kernel
  have hlocal : localPath ⟨"/work"⟩ = ⟨"/work/.replytree.toml"⟩ := by decide +kernel
  rw [Settings.load, hglobal, Overlay.FromFile.nowhere.eq_ok, Option.map_some, hlocal, hown]
  cases x <;> rfl

/-- Settings that cannot be read, a strange extension and a file that is not there: the first of these
counts, then the second. And a flat listing without a fault. -/
theorem exit_of_faults_of_files :
    ((Line.request (some (.tree ⟨"posts.yaml"⟩)) 0).run (exHost "indent = x")).exit = 78 ∧
    ((Line.request (some (.json ⟨"posts.yaml"⟩)) 4).run (exHost "indent = 3")).exit = 65 ∧
    ((Line.request (some (.flat ⟨"posts.json"⟩)) 0).run (exHost "indent = 3")).exit = 0 := by
  have hread : (exHost "indent = 3").files.read ⟨"/work/.replytree.toml"⟩ = .ok "indent = 3" := rfl
  have htoml : Overlay.ofToml? "indent = 3" = some ⟨none, some 3, none⟩ := by decide +kernel
  have hload := load_exHost (Overlay.FromFile.read hread htoml).eq_ok
  refine ⟨?_, ?_, ?_⟩
  · have hread : (exHost "indent = x").files.read ⟨"/work/.replytree.toml"⟩ = .ok "indent = x" := rfl
    have hload := load_exHost (Overlay.FileFails.unparsable hread (by decide +kernel)).eq_error
    exact (exit_of_faults _ _ _ .tree 0).2.1 .settings ⟨[], _, rfl, nofun, _, .settings hload⟩
  · have hext : ((exHost "indent = 3").target ⟨"posts.yaml"⟩).extension? = some "yaml" := by
      show (Path.expand {} ⟨"posts.yaml"⟩).extension? = some "yaml"
      decide +kernel
    have hnone : ∀ format : Format, lowerCase "yaml" ≠ format.name := by
      intro format
      cases format <;> decide +kernel
    refine (exit_of_faults _ ⟨"posts.yaml"⟩ _ .json 4).2.1 .extension
      ⟨[.settings], _, rfl, ?_, _, .extension hext hnone⟩
    rintro fault hfault ⟨e, he⟩
    obtain rfl := List.mem_singleton.1 hfault
    cases he with
    | settings he => cases hload.symm.trans he
  · have hposts : Workspace.load ⟨(exHost "indent = 3").files, {}, ⟨0, 3, .json⟩⟩ ⟨"posts.json"⟩ =
        .ok [⟨1, none, "", none⟩, ⟨2, some 1, "", none⟩] :=
      Workspace.eq_ok_of_toOption (by decide +kernel)
    have hbuild : Workspace.build ⟨(exHost "indent = 3").files, {}, ⟨0, 3, .json⟩⟩ ⟨"posts.json"⟩ =
        .ok ⟨[.node ⟨1, none, "", none⟩ [.leaf ⟨2, some 1, "", none⟩]]⟩ :=
      (Workspace.build_of_load hposts).trans (Workspace.thread_ok
        (Forest.Arranges.thread_eq ⟨by decide, by decide⟩ (by decide) (by decide)))
    have hdiscussions : (exHost "indent = 3").discussions ⟨"posts.json"⟩ = .ok _ :=
      bind_eq_ok_iff.2 ⟨_, hload, hbuild⟩
    refine (exit_of_faults _ ⟨"posts.json"⟩ _ (.flat fun s f hs hf => ?_) 0).1.2
      (not_fails_of_discussions hdiscussions)
    cases hload.symm.trans hs
    cases hbuild.symm.trans hf
    decide +kernel

end Requests

end Command

end Discussion
