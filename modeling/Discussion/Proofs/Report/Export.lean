import Discussion.Command.Run
import Discussion.Proofs.Post.Encodings
import Discussion.Proofs.Threading.RoundTrip
import Discussion.Proofs.Tree.Listing
import Discussion.Proofs.Tree.Measures

/-!
# Reading a written forest

The listing of a forest in JSON holds the forest twice: by the depths of its entries, and by the parents
of its posts. Both ways lead back to it.

* `Forest.records f`: the entries of the listing, each with the record of its post.

Results:
1. `Forest.spellable_postData`: the depths in the listing fit a word, so that they are read back.
2. `Forest.ofData?_postData`: the way back by the depths.
3. `Workspace.build_items`: the way back by the parents.
4. `Workspace.build_of_listing`: both, from any text of the listing.
-/

namespace Discussion

open Json (Spellable)

/-! ## Depths -/

theorem length_le_of_nodup {ks : List UInt64} (h : ks.Nodup) : ks.length ≤ UInt64.size := by
  have hnodup : (ks.map UInt64.toNat).Nodup := h.map fun _ _ => UInt64.toNat.inj
  have hsub : (ks.map UInt64.toNat).Subperm (List.range UInt64.size) := by
    refine hnodup.subperm fun n hn => ?_
    obtain ⟨k, -, rfl⟩ := List.mem_map.1 hn
    exact List.mem_range.2 k.toNat_lt_size
  have hle := hsub.length_le
  rwa [List.length_map, List.length_range] at hle

namespace Forest

variable {f : Forest Post}

/-- No two posts have one number, so there are no more posts than numbers. -/
theorem Linked.depth_lt (h : f.Linked) : ∀ e ∈ f.entries, e.1 < UInt64.size := by
  intro e he
  rw [entries_eq] at he
  obtain ⟨v, hv, rfl⟩ := List.mem_map.1 he
  have hlevel := Tree.level_lt_countAll 0 f.roots v hv
  have hsize := length_le_of_nodup h.distinct
  rw [List.length_map, flatten_eq, List.length_map, nodes, Tree.length_nodesAll] at hsize
  show v.1 < _
  omega

/-- The entries of the listing, each with the record of its post. -/
def records (f : Forest Post) : List (Nat × Data) :=
  f.entries.map fun e => (e.1, Post.toData e.2)

theorem postData_eq (f : Forest Post) : f.postData =
    .list (f.records.map fun e => .record [("depth", .integer e.1), ("item", e.2)]) := by
  rw [postData, toData, entriesData, records, List.map_map]
  rfl

theorem spellable_postData (h : f.Linked) (n : Nat) : Spellable (n + 3) f.postData := by
  refine .list fun d hd => ?_
  obtain ⟨e, he, rfl⟩ := List.mem_map.1 hd
  refine .record fun m hm => ?_
  simp only [List.mem_cons, List.not_mem_nil, or_false] at hm
  rcases hm with rfl | rfl
  · exact .natural (n + 1) (h.depth_lt e he)
  · exact Post.spellable_toData e.2 n

/-! ## Back by the depths -/

theorem forall₂_records (f : Forest Post) : List.Forall₂
    (fun e p => e.1 = p.1 ∧ Post.ofData? e.2 = some p.2) f.records f.entries :=
  Data.forall₂_map_self fun e _ => ⟨rfl, (Post.ofData?_eq_some_iff _ _).2 e.2.describes_toData⟩

/-- The written listing describes the forest it was made of. -/
theorem ofData?_postData (f : Forest Post) : ofData? Post.ofData? f.postData = some f := by
  have hentries : (f.entries.map (entryData Post.toData)).mapM (entryOfData? Post.ofData?) =
      some f.entries := by
    refine Data.mapM_eq_some_iff.2 (Data.forall₂_map_self fun e _ => ?_)
    have hitem := (Post.ofData?_eq_some_iff _ _).2 e.2.describes_toData
    show (Post.ofData? e.2.toData).map (fun p => (e.1, p)) = some e
    rw [hitem]
    rfl
  show Option.map ofPreorder (List.mapM _ _) = _
  rw [hentries, Option.map_some, ofPreorder_listing]

/-! ## Back by the parents -/

theorem map_snd_records (f : Forest Post) : f.records.map Prod.snd = f.items.map Post.toData := by
  rw [records, items_eq_map_entries, List.map_map, List.map_map]
  rfl

end Forest

theorem Post.normalize_normalize (absent : UInt64) (p : Post) :
    (p.normalize absent).normalize absent = p.normalize absent := by
  unfold normalize
  split
  · exact if_neg nofun
  · rfl

namespace Workspace

variable {v w : Workspace} {file file' : Path} {ps : List Post} {f : Forest Post} {text : String}

theorem build_eq_ok_iff : w.build file = .ok f ↔
    ∃ ps, w.load file = .ok ps ∧ Forest.thread ps = .ok f := by
  have hthread (ps : List Post) : thread ps = .ok f ↔ Forest.thread ps = .ok f := by
    cases h : Forest.thread ps with
    | ok g => rw [thread_ok h]; simp
    | error e => rw [thread_error h]; simp
  rw [build, bind_eq_ok_iff]
  simp only [hthread]

/-- Loaded posts have no parents that stand for none any more. -/
theorem normalize_of_load (h : w.load file = .ok ps) :
    ∀ p ∈ ps, p.normalize w.settings.rootParentId = p := by
  obtain ⟨written, -, rfl⟩ := load_eq_ok_iff.1 h
  intro p hp
  obtain ⟨q, -, rfl⟩ := List.mem_map.1 hp
  exact q.normalize_normalize _

/-- A file that holds the posts of a forest in pre-order is built into the forest again. -/
theorem build_items (h : w.build file = .ok f) (hsettings : v.settings = w.settings)
    (hheld : v.Holds file' f.items) : v.build file' = .ok f := by
  obtain ⟨ps, hload, hthread⟩ := build_eq_ok_iff.1 h
  have hnormal : f.items.map (Post.normalize v.settings.rootParentId) = f.items := by
    refine (List.map_congr_left fun p hp => ?_).trans (List.map_id' _)
    rw [Forest.items_eq_flatten] at hp
    rw [hsettings]
    exact normalize_of_load hload p ((Forest.flatten_perm hthread).mem_iff.1 hp)
  refine build_eq_ok_iff.2 ⟨f.items, load_eq_ok_iff.2 ⟨_, hheld, hnormal⟩, ?_⟩
  rw [Forest.items_eq_flatten]
  exact (Forest.linked_of_thread hthread).thread_eq

theorem formatOf_json {p : Path} (h : p.extension? = some "json") : w.formatOf p = .ok .json := by
  have hjson : Format.ofExtension? "json" = some .json := by decide +kernel
  simp only [formatOf, h, hjson]

/-- The JSON text of a forest, on one line or on many, and what the command prints, is read as one
list of entries. By their depths the entries describe the forest, and a file that holds the items of the
entries and nothing else is built into it. -/
theorem build_of_listing (w : Workspace) (file : Path) (f : Forest Post) (h : w.build file = .ok f) :
    (∀ text, text = Json.compactText f.postData ∨ text = Json.prettyText f.postData ∨
        (∃ host : Command.Host, host.files = w.files ∧ host.environment = w.environment ∧
          text = ((Command.Request.json file).run host w.settings).out) →
      Json.read text.toList =
        .ok (.list (f.records.map fun e => .record [("depth", .integer e.1), ("item", e.2)]))) ∧
    (∃ entries : List (Nat × Post),
      List.Forall₂ (fun e p => e.1 = p.1 ∧ Post.ofData? e.2 = some p.2) f.records entries ∧
        Forest.ofPreorder entries = f) ∧
    ∀ (v : Workspace) (file' : Path) (text : String), v.settings = w.settings →
      (v.resolve file').extension? = some "json" →
      text = Json.compactText (.list (f.records.map Prod.snd)) ∨
        text = Json.prettyText (.list (f.records.map Prod.snd)) →
      v.readText (v.resolve file') = .ok text → v.build file' = .ok f := by
  obtain ⟨ps, hload, hthread⟩ := build_eq_ok_iff.1 h
  have hspell := Forest.spellable_postData (Forest.linked_of_thread hthread) 124
  refine ⟨?_, ⟨f.entries, f.forall₂_records, f.ofPreorder_listing⟩, ?_⟩
  · rw [← f.postData_eq]
    rintro text (rfl | rfl | ⟨host, hfiles, henvironment, rfl⟩)
    · exact Json.read_compactText hspell
    · exact Json.read_prettyText hspell
    · have hout : ((Command.Request.json file).run host w.settings).out =
          Json.prettyText f.postData ++ "\n" := by
        show (host.outcome (Workspace.build ⟨host.files, host.environment, w.settings⟩ file) _).out = _
        rw [hfiles, henvironment, h]
        rfl
      rw [hout]
      exact Json.read_prettyText_line hspell
  · intro v file' text hsettings hjson htext hread
    rw [f.map_snd_records] at htext
    refine build_items h hsettings ?_
    rcases htext with rfl | rfl
    · exact (Document.Encodes.compact (.bare f.items) rfl).holds (formatOf_json hjson) hread
    · exact (Document.Encodes.pretty (.bare f.items) rfl).holds (formatOf_json hjson) hread

/-- A reply before the post it replies to, a post whose parent is not there, and a parent that stands
for none. -/
def exWritten : List Post :=
  [⟨2, some 7, "re: \"é\"", some "a"⟩, ⟨7, some 5, "", none⟩, ⟨1, some 0, "first\n", none⟩]

def exForest : Forest Post :=
  ⟨[.node ⟨7, some 5, "", none⟩ [.leaf ⟨2, some 7, "re: \"é\"", some "a"⟩],
    .leaf ⟨1, none, "first\n", none⟩]⟩

/-- The posts as they were written, and the items of the listing of their forest. -/
def exHost : Command.Host where
  files := .ofEntries
    [(⟨"posts.json"⟩, .file (.ok (Json.compactText (Document.bare exWritten).toData))),
      (⟨"items.json"⟩, .file (.ok (Json.prettyText (.list (exForest.records.map Prod.snd)))))]
  environment := {}
  directory := none

theorem build_of_listing_of_posts :
    let w : Workspace := ⟨exHost.files, exHost.environment, {}⟩
    w.build ⟨"posts.json"⟩ = .ok exForest ∧ w.build ⟨"items.json"⟩ = .ok exForest ∧
      Json.read ((Command.Request.json ⟨"posts.json"⟩).run exHost {}).out.toList =
        .ok (.list (exForest.records.map fun e =>
          .record [("depth", .integer e.1), ("item", e.2)])) := by
  intro w
  have hresolve : ∀ file ∈ [(⟨"posts.json"⟩ : Path), ⟨"items.json"⟩], w.resolve file = file := by
    decide +kernel
  have hheld : w.Holds ⟨"posts.json"⟩ exWritten :=
    (Document.Encodes.compact (.bare exWritten) rfl).holds
      (formatOf_json (by decide +kernel)) (by rw [hresolve _ (by simp)]; rfl)
  have hload := load_eq_ok_iff.2 ⟨_, hheld, rfl⟩
  have hthread : Forest.thread (exWritten.map (Post.normalize w.settings.rootParentId)) =
      .ok exForest :=
    Forest.Arranges.thread_eq ⟨by decide, by decide⟩ (by decide) (by decide)
  have hbuild : w.build ⟨"posts.json"⟩ = .ok exForest := build_eq_ok_iff.2 ⟨_, hload, hthread⟩
  obtain ⟨hread, -, hback⟩ := build_of_listing w ⟨"posts.json"⟩ exForest hbuild
  refine ⟨hbuild, ?_, hread _ (.inr (.inr ⟨exHost, rfl, rfl, rfl⟩))⟩
  exact hback w ⟨"items.json"⟩ _ rfl (by decide +kernel) (.inr rfl)
    (by rw [hresolve _ (by simp)]; rfl)

end Workspace

end Discussion
