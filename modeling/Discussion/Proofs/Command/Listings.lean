import Discussion.Command.Run
import Discussion.Proofs.Files.Loading
import Discussion.Proofs.Report.Indentation
import Discussion.Proofs.Threading.Counting
import Discussion.Proofs.Tree.Drawing

/-!
# The lines of a listing

A listing has a line for each post. The subject and the author of a post are written as they are, so a
line feed in one of them ends the line of the post too early, and what follows it looks like a line of
its own.

* `Post.texts p`: the subject and the author.

Results:
1. `Post.lineFeeds_summary`: the line of a post has no other line feeds than these texts.
2. `Forest.lineFeeds_unlines_flatLines`, `Forest.hasLines_flatLines`, `Forest.hasLines_drawing`: flat
   listings and drawings.
3. `Command.runRequest_flat`: a flat listing is printed as a whole, or the run breaks off.
4. `Command.listed_line_by_line`: the lines that a file is listed with.
-/

namespace Discussion

open Text (lineFeeds lineFeeds_append lineFeeds_eq_zero_iff HasLines)

namespace Post

/-- The subject and the author as one text. -/
def texts (p : Post) : String :=
  p.subject ++ p.author.getD ""

theorem lineFeeds_toString (n : UInt64) : lineFeeds (toString n) = 0 := by
  rw [lineFeeds_eq_zero_iff]
  show '\n' ∉ (toString n.toNat).toList
  rw [Nat.toString_eq_ofList_toDigits, String.toList_ofList]
  intro h
  exact absurd (Nat.isDigit_of_mem_toDigits (by decide) (by decide) h) (by decide)

theorem lineFeeds_summary (p : Post) : lineFeeds p.summary = lineFeeds p.texts := by
  have hsign : lineFeeds "#" = 0 := rfl
  have hspace : lineFeeds " " = 0 := rfl
  unfold summary texts
  rw [lineFeeds_append, lineFeeds_append, lineFeeds_append, lineFeeds_append, lineFeeds_append,
    lineFeeds_toString, hsign, hspace, Nat.zero_add]
  congr 1
  cases p.author with
  | none => rfl
  | some a =>
    show lineFeeds (" (" ++ a ++ ")") = lineFeeds a
    rw [lineFeeds_append, lineFeeds_append]
    exact Nat.zero_add _

end Post

/-! ## Forests -/

namespace Forest

variable {f : Forest Post}

/-- An indentation has no line feeds. -/
theorem lineFeeds_indented (width : Nat) (p : Post) :
    lineFeeds (String.ofList (List.replicate width ' ') ++ p.summary) = lineFeeds p.texts := by
  have hspaces : lineFeeds (String.ofList (List.replicate width ' ')) = 0 := by
    rw [lineFeeds_eq_zero_iff, String.toList_ofList]
    intro h
    exact absurd (List.eq_of_mem_replicate h) (by decide)
  rw [lineFeeds_append, hspaces, Nat.zero_add, Post.lineFeeds_summary]

/-- Each line of a flat listing is ended by a line feed, and those of the posts come on top. -/
theorem lineFeeds_unlines_flatLines (indent : UInt64) (f : Forest Post) :
    lineFeeds (Command.unlines (f.flatLines indent)) =
      f.items.length + lineFeeds (String.join (f.items.map Post.texts)) := by
  have htexts : lineFeeds (String.join (f.flatLines indent)) =
      lineFeeds (String.join (f.items.map Post.texts)) := by
    rw [flatLines, items_eq_map_entries, List.map_map]
    exact Text.lineFeeds_join_map fun e _ => lineFeeds_indented (e.1 * indent.toNat) e.2
  rw [Command.unlines, Text.lineFeeds_join_lines, htexts, flatLines, items_eq_map_entries,
    List.length_map, List.length_map]

theorem hasLines_flatLines (indent : UInt64) (hplain : ∀ p ∈ f.items, '\n' ∉ p.texts.toList) :
    HasLines (Command.unlines (f.flatLines indent)) (f.flatLines indent) where
  text_eq := rfl
  lineFeed_notMem l hl := by
    obtain ⟨e, he, rfl⟩ := List.mem_map.1 hl
    have hitem : e.2 ∈ f.items := by
      rw [items_eq_map_entries]
      exact List.mem_map_of_mem he
    rw [← lineFeeds_eq_zero_iff, lineFeeds_indented]
    exact lineFeeds_eq_zero_iff.2 (hplain e.2 hitem)

theorem lineFeeds_drawing (t : Tree Post) : lineFeeds (t.drawing Post.summary) =
    t.size + lineFeeds (String.join (t.nodes.map fun v => v.item.texts)) := by
  have htexts : lineFeeds (String.join (t.nodes.map fun v => v.item.summary)) =
      lineFeeds (String.join (t.nodes.map fun v => v.item.texts)) :=
    Text.lineFeeds_join_map fun v _ => v.item.lineFeeds_summary
  rw [Tree.lineFeeds_drawing, Tree.size_eq, htexts]

theorem hasLines_drawing {t : Tree Post} (ht : t ∈ f.roots)
    (hplain : ∀ p ∈ f.items, '\n' ∉ p.texts.toList) :
    ∃ lines, HasLines (t.drawing Post.summary) lines ∧ lines.length = t.size := by
  rw [Tree.size_eq]
  refine Tree.hasLines_drawing fun v hv => ?_
  have hitem : v.item ∈ f.items := by
    rw [items_eq_flatten, flatten_eq]
    exact List.mem_map_of_mem (Tree.mem_nodesAll.2 ⟨t, ht, hv⟩)
  rw [← lineFeeds_eq_zero_iff, Post.lineFeeds_summary]
  exact lineFeeds_eq_zero_iff.2 (hplain v.item hitem)

end Forest

/-! ## Runs -/

namespace Command

variable {h : Host} {s : Settings} {file : Path} {ps : List Post} {f : Forest Post}

section Flat

variable (hs : Settings.load h.files h.environment h.directory = .ok s)
  (hload : Workspace.load ⟨h.files, h.environment, s⟩ file = .ok ps) (hf : Forest.thread ps = .ok f)

include hs hload hf

theorem runRequest_flat : h.runRequest (some (.flat file)) =
    (f.flatLines? s.indent).elim .brokenOff fun lines => { out := unlines lines } := by
  unfold Host.runRequest
  simp only [hs]
  show h.outcome (Workspace.build _ file) _ = _
  rw [Workspace.build_of_load hload, Workspace.thread_ok hf]
  rfl

theorem runRequest_flat_of_hasRoom (hroom : f.HasRoom s.indent) :
    h.runRequest (some (.flat file)) = { out := unlines (f.flatLines s.indent) } := by
  rw [runRequest_flat hs hload hf, Forest.flatLines?_of_hasRoom hroom, Option.elim_some]

/-- Lines that come before the one without room are not printed either. -/
theorem runRequest_flat_of_not_hasRoom (hroom : ¬ f.HasRoom s.indent) :
    h.runRequest (some (.flat file)) = .brokenOff := by
  rw [runRequest_flat hs hload hf, Forest.flatLines?_eq_none_iff.2 hroom, Option.elim_none]

end Flat

/-- If there is room, a file is listed with a line for each post, and with one more for each line feed in a
subject or an author. If there are none, the lines of the flat listing are the indented texts of the posts in pre-order,
and each drawing has as many lines as its discussion has posts. So a flat listing has no other lines than
those of the posts exactly if there are none. -/
theorem listed_line_by_line (h : Host) (s : Settings) (file : Path) (ps : List Post) (f : Forest Post)
    (hs : Settings.load h.files h.environment h.directory = .ok s)
    (hload : Workspace.load ⟨h.files, h.environment, s⟩ file = .ok ps)
    (hf : Forest.thread ps = .ok f) (hroom : f.HasRoom s.indent) :
    let out := (h.runRequest (some (.flat file))).out
    (lineFeeds out = ps.length + lineFeeds (String.join (ps.map Post.texts))) ∧
    (∀ t ∈ f.roots, lineFeeds (t.drawing Post.summary) =
      t.size + lineFeeds (String.join (t.nodes.map fun v => v.item.texts))) ∧
    ((∀ p ∈ ps, '\n' ∉ p.texts.toList) →
      f.entries.length = ps.length ∧
      HasLines out (f.entries.map fun e =>
        String.ofList (List.replicate (e.1 * s.indent.toNat) ' ') ++ e.2.summary) ∧
      List.Forall₂ (fun t text => ∃ lines, HasLines text lines ∧ lines.length = t.size)
        f.roots f.postDrawings) ∧
    ((∃ lines, HasLines out lines ∧ lines.length = ps.length) → ∀ p ∈ ps, '\n' ∉ p.texts.toList) := by
  have hperm : f.items.Perm ps := f.items_eq_flatten ▸ Forest.flatten_perm hf
  have hcount : lineFeeds (unlines (f.flatLines s.indent)) =
      ps.length + lineFeeds (String.join (ps.map Post.texts)) := by
    rw [f.lineFeeds_unlines_flatLines, hperm.length_eq, Text.lineFeeds_join_perm (hperm.map _)]
  rw [runRequest_flat_of_hasRoom hs hload hf hroom]
  refine ⟨hcount, fun t _ => ?_, fun hplain => ?_, ?_⟩
  · exact Forest.lineFeeds_drawing t
  · have hplain : ∀ p ∈ f.items, '\n' ∉ p.texts.toList := fun p hp => hplain p (hperm.mem_iff.1 hp)
    refine ⟨?_, ?_, ?_⟩
    · rw [← hperm.length_eq, Forest.items_eq_map_entries, List.length_map]
    · exact Forest.hasLines_flatLines s.indent hplain
    · refine List.forall₂_map_right_iff.2 (List.forall₂_same.2 fun t ht => ?_)
      exact Forest.hasLines_drawing ht hplain
  · rintro ⟨lines, hlines, hlength⟩ p hp
    -- the line feeds that end the lines of the posts leave none for the texts
    have hnone : lineFeeds (String.join (ps.map Post.texts)) = 0 := by
      have htotal := hcount.symm.trans hlines.lineFeeds_eq
      omega
    exact lineFeeds_eq_zero_iff.1
      (Text.lineFeeds_join_eq_zero_iff.1 hnone _ (List.mem_map_of_mem hp))

/-- A post with a reply. -/
def exReplied : List Post :=
  [⟨1, none, "a", none⟩, ⟨2, some 1, "b", some "c"⟩]

/-- A post with a line feed in its subject. -/
def exBroken : List Post :=
  [⟨1, none, "a\n#2 b", none⟩]

def exRepliedText : String :=
  "[\x7b\"id\":1,\"subject\":\"a\"\x7d," ++
    "\x7b\"id\":2,\"parent\":1,\"subject\":\"b\",\"author\":\"c\"\x7d]"

def exBrokenText : String :=
  "[\x7b\"id\":1,\"subject\":\"a\\n#2 b\"\x7d]"

def exListed : Host where
  files := .ofEntries
    [(⟨"replied.json"⟩, .file (.ok exRepliedText)), (⟨"broken.json"⟩, .file (.ok exBrokenText))]
  environment := {}
  directory := none

open Workspace in
theorem listed_line_by_line_of_replied :
    HasLines (exListed.runRequest (some (.flat ⟨"replied.json"⟩))).out ["#1 a", "  #2 b (c)"] := by
  let first : Tree Post := .node ⟨1, none, "a", none⟩ [.leaf ⟨2, some 1, "b", some "c"⟩]
  have hentries : Forest.entries ⟨[first]⟩ =
      [(0, ⟨1, none, "a", none⟩), (1, ⟨2, some 1, "b", some "c"⟩)] := Forest.entries_eq _
  have hload : Workspace.load ⟨exListed.files, exListed.environment, {}⟩ ⟨"replied.json"⟩ =
      .ok exReplied := eq_ok_of_toOption (by decide +kernel)
  have hthread : Forest.thread exReplied = .ok ⟨[first]⟩ :=
    Forest.Arranges.thread_eq ⟨by decide, by decide⟩ (by decide) (by decide)
  obtain ⟨-, -, hplain, -⟩ := listed_line_by_line exListed {} ⟨"replied.json"⟩ exReplied ⟨[first]⟩
    (eq_ok_of_toOption (by decide +kernel)) hload hthread (by rw [Forest.HasRoom, hentries]; decide)
  obtain ⟨-, hlines, -⟩ := hplain (by decide)
  rw [hentries] at hlines
  exact hlines

open Workspace in
/-- One post, and two lines. -/
theorem flat_of_lineFeed :
    Settings.load exListed.files exListed.environment exListed.directory = .ok {} ∧
    Workspace.load ⟨exListed.files, exListed.environment, {}⟩ ⟨"broken.json"⟩ = .ok exBroken ∧
    Forest.thread exBroken = .ok ⟨exBroken.map .leaf⟩ ∧
    Forest.HasRoom ({} : Settings).indent ⟨exBroken.map .leaf⟩ ∧
    (exListed.runRequest (some (.flat ⟨"broken.json"⟩))).out = "#1 a\n#2 b\n" ∧
    Forest.postDrawings ⟨exBroken.map .leaf⟩ = ["#1 a\n#2 b\n"] ∧
    ∀ lines, HasLines "#1 a\n#2 b\n" lines → lines.length ≠ exBroken.length := by
  have hs : Settings.load exListed.files exListed.environment exListed.directory = .ok {} :=
    eq_ok_of_toOption (by decide +kernel)
  have hload : Workspace.load ⟨exListed.files, exListed.environment, {}⟩ ⟨"broken.json"⟩ =
      .ok exBroken := eq_ok_of_toOption (by decide +kernel)
  have hthread : Forest.thread exBroken = .ok ⟨exBroken.map .leaf⟩ :=
    Forest.Arranges.thread_eq ⟨by decide, by decide⟩ (by decide) (by decide)
  have hentries : Forest.entries ⟨exBroken.map .leaf⟩ = [(0, ⟨1, none, "a\n#2 b", none⟩)] :=
    Forest.entries_eq _
  have hroom : Forest.HasRoom ({} : Settings).indent ⟨exBroken.map .leaf⟩ := by
    rw [Forest.HasRoom, hentries]
    decide
  refine ⟨hs, hload, hthread, hroom, ?_, ?_, ?_⟩
  · rw [runRequest_flat_of_hasRoom hs hload hthread hroom, Forest.flatLines, hentries]
    decide +kernel
  · show [Tree.drawing Post.summary (.leaf ⟨1, none, "a\n#2 b", none⟩)] = _
    rw [Tree.drawing, Tree.labels_eq_relabel, Tree.lines_eq]
    decide +kernel
  · intro lines hlines
    rw [← hlines.lineFeeds_eq]
    decide

end Command

end Discussion
