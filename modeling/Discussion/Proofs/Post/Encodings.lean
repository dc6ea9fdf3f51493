import Discussion.Proofs.Data.Members
import Discussion.Proofs.Files.Loading
import Discussion.Proofs.Json.RoundTrip
import Discussion.Proofs.Post.Decoding
import Discussion.Proofs.Toml.Tables

/-!
# Encodings of one list of posts

A list of posts can be written as a JSON list, as a JSON record that wraps the list, and as TOML. In
JSON a missing parent is null and a missing author is left out; in TOML both are left out, and numbers
have to fit signed words.

* `Document.Encodes ps format text`: the text is one of these encodings of `ps`.

Results:
1. `Document.ofJson_compactText`, `Document.ofJson_prettyText`, `Document.ofToml_toToml`: each encoding
   is decoded to the posts it was made from.
2. `Document.encodings_agree`: files that hold encodings of one list are loaded alike.
-/

namespace Discussion

open Json (Spellable)

namespace Post

variable (p : Post)

theorem spellable_number (n : Nat) (k : UInt64) : Spellable n (number k) :=
  .natural n k.toNat_lt_size

theorem spellable_toData (n : Nat) : Spellable (n + 1) p.toData := by
  refine .record fun m hm => ?_
  simp only [toMembers, List.mem_append, List.mem_cons, List.not_mem_nil, or_false,
    Option.mem_toList, Option.map_eq_some_iff] at hm
  obtain (rfl | rfl | rfl) | ⟨a, -, rfl⟩ := hm
  · exact spellable_number n p.id
  · cases p.parent with
    | none => exact .null
    | some k => exact spellable_number n k
  · exact .text _
  · exact .text a

open Data in
/-- The record of a post, in which the parent and the author may be left out. -/
theorem describes_record {parent author : Option Data}
    (hparent : parent = none ∧ p.parent = none ∨
      ∃ d, parent = some d ∧ Nullable IsNumber d p.parent)
    (hauthor : author = p.author.map Data.text) :
    Describes (.record (("id", number p.id) :: ((parent.map fun d => ("parent", d)).toList ++
      ("subject", .text p.subject) :: (author.map fun d => ("author", d)).toList))) p := by
  generalize hms : ("id", number p.id) :: ((parent.map fun d => ("parent", d)).toList ++
    ("subject", .text p.subject) :: (author.map fun d => ("author", d)).toList) = ms
  have hvalues : valuesOf ["id"] ms = [number p.id] ∧
      valuesOf ["parent", "parentid"] ms = parent.toList ∧
      valuesOf ["subject"] ms = [.text p.subject] ∧ valuesOf ["author"] ms = author.toList := by
    rw [← hms]
    cases parent <;> cases author <;> simp [valuesOf]
  obtain ⟨hid, hparents, hsubject, hauthors⟩ := hvalues
  refine .members (valuesOf_eq_singleton_iff.1 hid) rfl (atMostOne_of_valuesOf hparents hparent)
    (.inr ⟨_, valuesOf_eq_singleton_iff.1 hsubject, rfl⟩) (atMostOne_of_valuesOf hauthors ?_)
  rw [hauthor]
  cases p.author with
  | none => exact .inl ⟨rfl, rfl⟩
  | some a => exact .inr ⟨.text a, rfl, .inr ⟨a, rfl, rfl⟩⟩

/-- The parent is null if there is none. -/
theorem toMembers_eq : p.toMembers = ("id", number p.id) ::
    (((some (p.parent.elim .null number)).map fun d => ("parent", d)).toList ++
      ("subject", .text p.subject) ::
        ((p.author.map Data.text).map fun d => ("author", d)).toList) := by
  rw [Option.map_map]
  rfl

/-- The parent is left out if there is none, as TOML cannot write null. -/
theorem toTable_eq : p.toTable = ("id", number p.id) ::
    (((p.parent.map number).map fun d => ("parent", d)).toList ++ ("subject", .text p.subject) ::
      ((p.author.map Data.text).map fun d => ("author", d)).toList) := by
  unfold toTable toMembers
  cases p.parent <;> cases p.author <;> rfl

theorem describes_toData : Describes p.toData p := by
  rw [toData, toMembers_eq]
  refine describes_record p (.inr ⟨_, rfl, ?_⟩) rfl
  cases p.parent with
  | none => exact .inl ⟨rfl, rfl⟩
  | some k => exact .inr ⟨k, rfl, rfl⟩

theorem describes_toTable : Describes (.record p.toTable) p := by
  rw [toTable_eq]
  refine describes_record p ?_ rfl
  cases p.parent with
  | none => exact .inl ⟨rfl, rfl⟩
  | some k => exact .inr ⟨number k, rfl, .inr ⟨k, rfl, rfl⟩⟩

/-- The numbers of a post fit signed words: they are less than 2^63. -/
def FitsSigned : Prop :=
  p.id.toNat < Data.signedLimit ∧ ∀ k ∈ p.parent, k.toNat < Data.signedLimit

instance : Decidable p.FitsSigned :=
  decidable_of_iff (p.id.toNat < Data.signedLimit ∧ p.parent.all (·.toNat < Data.signedLimit)) <| by
    simp [FitsSigned, Option.all_eq_true]

theorem exists_writeAtom_number {k : UInt64} (hk : k.toNat < Data.signedLimit) :
    ∃ w, Toml.writeAtom? (number k) = some w :=
  ⟨(toString (k.toNat : Int)).toList, by rw [number, Toml.writeAtom_natural, if_pos hk]⟩

variable {p}

theorem mem_toTable_iff {m : String × Data} : m ∈ p.toTable ↔ m = ("id", number p.id) ∨
    (∃ k, p.parent = some k ∧ m = ("parent", number k)) ∨ m = ("subject", .text p.subject) ∨
    ∃ a, p.author = some a ∧ m = ("author", .text a) := by
  simp only [toTable_eq, List.mem_cons, List.mem_append, Option.mem_toList, Option.map_map,
    Option.map_eq_some_iff, Function.comp_apply, @eq_comm _ _ m]

theorem exists_writeAtom_toTable (hp : p.FitsSigned) :
    ∀ m ∈ p.toTable, ∃ w, Toml.writeAtom? m.2 = some w := by
  intro m hm
  obtain rfl | ⟨k, hk, rfl⟩ | rfl | ⟨a, -, rfl⟩ := mem_toTable_iff.1 hm
  · exact exists_writeAtom_number hp.1
  · exact exists_writeAtom_number (hp.2 k hk)
  · exact ⟨_, rfl⟩
  · exact ⟨_, rfl⟩

theorem isBareName_toTable : ∀ m ∈ p.toTable, Toml.IsBareName m.1 := by
  intro m hm
  obtain rfl | ⟨k, -, rfl⟩ | rfl | ⟨a, -, rfl⟩ := mem_toTable_iff.1 hm
  · exact (by decide : Toml.IsBareName "id")
  · exact (by decide : Toml.IsBareName "parent")
  · exact (by decide : Toml.IsBareName "subject")
  · exact (by decide : Toml.IsBareName "author")

theorem nodup_toTable : (p.toTable.map (·.1)).Nodup := by
  rw [toTable_eq]
  cases p.parent <;> cases p.author <;> simp

end Post

namespace Document

/-! ## JSON -/

theorem spellable_toData (n : Nat) (doc : Document) : Spellable (n + 3) doc.toData := by
  have hlist (n : Nat) (ps : List Post) : Spellable (n + 2) (.list (ps.map Post.toData)) := by
    refine .list fun d hd => ?_
    obtain ⟨p, -, rfl⟩ := List.mem_map.1 hd
    exact p.spellable_toData n
  cases doc with
  | bare ps => exact hlist (n + 1) ps
  | wrapped ps =>
    refine .record fun m hm => ?_
    rw [List.mem_singleton.1 hm]
    exact hlist n ps

theorem describes_wrapped {ds : List Data} {ps : List Post}
    (h : List.Forall₂ Post.Describes ds ps) :
    Describes (.record [("posts", .list ds)]) (.wrapped ps) :=
  .wrapped (Data.valuesOf_eq_singleton_iff.1 (by simp [Data.valuesOf])) h

theorem describes_toData (doc : Document) : Describes doc.toData doc := by
  cases doc with
  | bare ps => exact .bare (Data.forall₂_map_self fun p _ => p.describes_toData)
  | wrapped ps => exact describes_wrapped (Data.forall₂_map_self fun p _ => p.describes_toData)

theorem ofJson_of_read {doc : Document} {text : String}
    (h : Json.read text.toList = .ok doc.toData) : ofJson text = .ok doc :=
  ofJson_eq_ok_iff.2 ⟨doc.toData, h, ofData?_eq_some_iff.2 doc.describes_toData⟩

/-- A document on one line is decoded to the document. -/
theorem ofJson_compactText (doc : Document) : ofJson (Json.compactText doc.toData) = .ok doc :=
  ofJson_of_read (Json.read_compactText (doc.spellable_toData 124))

/-- A document on many lines is decoded to the document. -/
theorem ofJson_prettyText (doc : Document) : ofJson (Json.prettyText doc.toData) = .ok doc :=
  ofJson_of_read (Json.read_prettyText (doc.spellable_toData 124))

/-! ## TOML -/

variable {ps : List Post} {text : String}

theorem exists_toToml (h : ∀ p ∈ ps, p.FitsSigned) : ∃ text, toToml? ps = some text := by
  have htables : ∀ ms ∈ ps.map Post.toTable, ∀ m ∈ ms, ∃ w, Toml.writeAtom? m.2 = some w := by
    intro ms hms
    obtain ⟨p, hp, rfl⟩ := List.mem_map.1 hms
    exact Post.exists_writeAtom_toTable (h p hp)
  obtain ⟨s, hs⟩ := Toml.exists_writeTables "posts" htables
  exact ⟨String.ofList s, by rw [toToml?, hs]; rfl⟩

/-- A wrapped document in TOML is decoded to the document. -/
theorem ofToml_toToml (h : toToml? ps = some text) : ofToml text = .ok (.wrapped ps) := by
  obtain ⟨s, hs, rfl⟩ := Option.map_eq_some_iff.1 h
  have hname : Toml.IsBareName "posts" := by decide
  have hread := Toml.read_writeTables hname hs
    (fun ms hms => by
      obtain ⟨p, -, rfl⟩ := List.mem_map.1 hms
      exact Post.isBareName_toTable)
    (fun ms hms => by
      obtain ⟨p, -, rfl⟩ := List.mem_map.1 hms
      exact Post.nodup_toTable)
  obtain ⟨ms, hms, hdata⟩ := Option.map_eq_some_iff.1 hread
  have hdecoded : ofData? (.record (Toml.Value.membersToData ms)) = some (.wrapped ps) := by
    rw [hdata, List.map_map]
    exact ofData?_eq_some_iff.2
      (describes_wrapped (Data.forall₂_map_self fun p _ => p.describes_toTable))
  rw [ofToml, String.toList_ofList, hms]
  simp only [hdecoded]

/-! ## Files -/

/-- The text is an encoding of the posts in the format. -/
inductive Encodes (ps : List Post) : Format → String → Prop
  | compact (doc : Document) : doc.posts = ps → Encodes ps .json (Json.compactText doc.toData)
  | pretty (doc : Document) : doc.posts = ps → Encodes ps .json (Json.prettyText doc.toData)
  | toml {text : String} : toToml? ps = some text → Encodes ps .toml text

variable {format : Format} {w : Workspace} {file : Path}

theorem Encodes.holds (h : Encodes ps format text)
    (hformat : w.formatOf (w.resolve file) = .ok format)
    (htext : w.readText (w.resolve file) = .ok text) : w.Holds file ps := by
  suffices hdoc : ∃ doc, Workspace.parse (w.resolve file) format text = .ok doc ∧ doc.posts = ps by
    obtain ⟨doc, hparse, hposts⟩ := hdoc
    exact ⟨format, text, doc, hformat, htext, hparse, hposts⟩
  cases h with
  | compact doc hdoc => exact ⟨doc, by rw [Workspace.parse, ofJson_compactText], hdoc⟩
  | pretty doc hdoc => exact ⟨doc, by rw [Workspace.parse, ofJson_prettyText], hdoc⟩
  | toml htoml => exact ⟨.wrapped ps, by rw [Workspace.parse, ofToml_toToml htoml], rfl⟩

/-- Each encoding of a list of posts is decoded to just that list, the TOML encoding exists if the
numbers fit signed words, and a file with any of the encodings is loaded as the normalized posts, so
that what is built from it, a forest or an error, depends on the posts alone. -/
theorem encodings_agree (ps : List Post) :
    (∀ doc : Document, doc.posts = ps → ofJson (Json.compactText doc.toData) = .ok doc ∧
      ofJson (Json.prettyText doc.toData) = .ok doc) ∧
    ((∀ p ∈ ps, p.FitsSigned) → ∃ text, toToml? ps = some text ∧ ofToml text = .ok (.wrapped ps)) ∧
    ∀ (w : Workspace) (file : Path) (format : Format) (text : String), Encodes ps format text →
      w.formatOf (w.resolve file) = .ok format → w.readText (w.resolve file) = .ok text →
        w.load file = .ok (ps.map (Post.normalize w.settings.rootParentId)) ∧
        w.build file = Workspace.thread (ps.map (Post.normalize w.settings.rootParentId)) := by
  refine ⟨fun doc _ => ⟨ofJson_compactText doc, ofJson_prettyText doc⟩, fun hps => ?_, ?_⟩
  · obtain ⟨text, htext⟩ := exists_toToml hps
    exact ⟨text, htext, ofToml_toToml htext⟩
  · intro w file format text henc hformat htext
    have hload := Workspace.load_eq_ok_iff.2 ⟨ps, henc.holds hformat htext, rfl⟩
    exact ⟨hload, Workspace.build_of_load hload⟩

/-- Posts with what the formats write differently: parents and authors that are there and that are
not, and texts that need escapes. -/
def exPosts : List Post :=
  [⟨1, none, "Café", some "a\\b"⟩, ⟨2, some 1, "it's \"so\"\n", none⟩, ⟨3, some 9, "", some ""⟩]

/-- A file for each encoding of the posts. -/
def exWorkspace : Workspace where
  files := .ofEntries
    [(⟨"bare.json"⟩, .file (.ok (Json.compactText (bare exPosts).toData))),
      (⟨"wrapped.json"⟩, .file (.ok (Json.prettyText (wrapped exPosts).toData))),
      (⟨"tables.toml"⟩, .file (.ok ((toToml? exPosts).getD "")))]
  environment := {}
  settings := {}

theorem encodings_agree_on_files :
    ofJson (Json.compactText (bare exPosts).toData) = .ok (bare exPosts) ∧
    ofToml ((toToml? exPosts).getD "") = .ok (wrapped exPosts) ∧
    (∀ file ∈ [(⟨"bare.json"⟩ : Path), ⟨"wrapped.json"⟩, ⟨"tables.toml"⟩],
      exWorkspace.load file = .ok exPosts) ∧
    exWorkspace.build ⟨"bare.json"⟩ = exWorkspace.build ⟨"tables.toml"⟩ := by
  obtain ⟨hjson, htoml, hfiles⟩ := encodings_agree exPosts
  have hfits : ∀ p ∈ exPosts, p.FitsSigned := by decide
  obtain ⟨text, htext, hdecoded⟩ := htoml hfits
  have hnormal : exPosts.map (Post.normalize exWorkspace.settings.rootParentId) = exPosts := by
    decide
  have hgetD : (toToml? exPosts).getD "" = text := by rw [htext]; rfl
  have hresolve : ∀ file ∈ [(⟨"bare.json"⟩ : Path), ⟨"wrapped.json"⟩, ⟨"tables.toml"⟩],
      exWorkspace.resolve file = file := by
    decide +kernel
  have hbare := hfiles exWorkspace ⟨"bare.json"⟩ .json _ (.compact (bare exPosts) rfl)
    (Workspace.eq_ok_of_toOption (by decide +kernel)) (by rw [hresolve _ (by simp)]; rfl)
  have hwrapped := hfiles exWorkspace ⟨"wrapped.json"⟩ .json _ (.pretty (wrapped exPosts) rfl)
    (Workspace.eq_ok_of_toOption (by decide +kernel)) (by rw [hresolve _ (by simp)]; rfl)
  have htables := hfiles exWorkspace ⟨"tables.toml"⟩ .toml _ (.toml htext)
    (Workspace.eq_ok_of_toOption (by decide +kernel))
    (by rw [hresolve _ (by simp), ← hgetD]; rfl)
  rw [hnormal] at hbare hwrapped htables
  refine ⟨(hjson _ rfl).1, hgetD ▸ hdecoded, ?_, hbare.2.trans htables.2.symm⟩
  simp only [List.forall_mem_cons]
  exact ⟨hbare.1, hwrapped.1, htables.1, nofun⟩

end Document

end Discussion
