import Discussion.Post.Document
import Discussion.Proofs.Data.Members
import Discussion.Proofs.Files.Loading
import Discussion.Proofs.Json.Numerals

/-!
# Which data are posts and documents

What the decoders accept, said without them.

* `Post.Describes`, `Document.Describes`: the data that stand for a post and for a document.

Results:
1. `Post.ofData?_eq_some_iff`: the two ways to write a post.
2. `Document.ofData?_eq_some_iff`: the two ways to write a document.
3. `Document.ofJson_eq_ok_iff_describes`: the JSON texts that hold a document.
-/

namespace Discussion

namespace Post

open Data

/-- The data that stand for a post: a record with at most one value for each part, of which only the
number must be given, or a list of the values of the parts, of which the last ones may be left out. -/
inductive Describes : Data → Post → Prop
  | members {ms : List (String × Data)} {p : Post} {d : Data} :
      Sole ["id"] ms d → IsNumber d p.id →
      AtMostOne ["parent", "parentid"] ms (Nullable IsNumber) none p.parent →
      AtMostOne ["subject"] ms IsText "" p.subject →
      AtMostOne ["author"] ms (Nullable IsText) none p.author →
      Describes (.record ms) p
  | id {d₁ : Data} {id : UInt64} : IsNumber d₁ id → Describes (.list [d₁]) { id }
  | parent {d₁ d₂ : Data} {id : UInt64} {parent : Option UInt64} :
      IsNumber d₁ id → Nullable IsNumber d₂ parent →
      Describes (.list [d₁, d₂]) { id, parent }
  | subject {d₁ d₂ d₃ : Data} {id : UInt64} {parent : Option UInt64} {subject : String} :
      IsNumber d₁ id → Nullable IsNumber d₂ parent → IsText d₃ subject →
      Describes (.list [d₁, d₂, d₃]) { id, parent, subject }
  | author {d₁ d₂ d₃ d₄ : Data} {id : UInt64} {parent : Option UInt64} {subject : String}
      {author : Option String} :
      IsNumber d₁ id → Nullable IsNumber d₂ parent → IsText d₃ subject →
      Nullable IsText d₄ author →
      Describes (.list [d₁, d₂, d₃, d₄]) { id, parent, subject, author }

variable {d : Data} {ms : List (String × Data)} {p : Post}

theorem numberOrNull?_eq_some_iff (d : Data) (x : Option UInt64) :
    numberOrNull? d = some x ↔ Nullable IsNumber d x :=
  nullable?_eq_some_iff natural?_eq_some_iff nofun

theorem textOrNull?_eq_some_iff (d : Data) (x : Option String) :
    textOrNull? d = some x ↔ Nullable IsText d x :=
  nullable?_eq_some_iff text?_eq_some_iff nofun

theorem ofMembers?_eq_some_iff : ofMembers? ms = some p ↔ Describes (.record ms) p := by
  have hparent (x : Option UInt64) : optional? ["parent", "parentid"] numberOrNull? none ms = some x ↔
      AtMostOne ["parent", "parentid"] ms (Nullable IsNumber) none x :=
    optional?_eq_some_iff numberOrNull?_eq_some_iff
  have hsubject (t : String) : optional? ["subject"] text? "" ms = some t ↔
      AtMostOne ["subject"] ms IsText "" t :=
    optional?_eq_some_iff text?_eq_some_iff
  have hauthor (x : Option String) : optional? ["author"] textOrNull? none ms = some x ↔
      AtMostOne ["author"] ms (Nullable IsText) none x :=
    optional?_eq_some_iff textOrNull?_eq_some_iff
  simp only [ofMembers?, Option.bind_eq_bind, Option.bind_eq_some_iff, required?_eq_some_iff,
    hparent, hsubject, hauthor, natural?_eq_some_iff, Option.some.injEq]
  constructor
  · rintro ⟨id, ⟨d, hd, hid⟩, parent, hparent, subject, hsubject, author, hauthor, rfl⟩
    exact .members hd hid hparent hsubject hauthor
  · rintro (⟨hd, hid, hparent, hsubject, hauthor⟩)
    exact ⟨_, ⟨_, hd, hid⟩, _, hparent, _, hsubject, _, hauthor, rfl⟩

theorem ofValues?_eq_some_iff {ds : List Data} :
    ofValues? ds = some p ↔ Describes (.list ds) p := by
  unfold ofValues?
  split
  case h_5 h₁ h₂ h₃ h₄ =>
    refine ⟨nofun, fun h => ?_⟩
    cases h with
    | id => exact absurd rfl (h₁ _)
    | parent => exact absurd rfl (h₂ _ _)
    | subject => exact absurd rfl (h₃ _ _ _)
    | author => exact absurd rfl (h₄ _ _ _ _)
  all_goals
    simp only [Option.bind_eq_bind, Option.bind_eq_some_iff, natural?_eq_some_iff,
      numberOrNull?_eq_some_iff, text?_eq_some_iff, textOrNull?_eq_some_iff, Option.some.injEq]
  · constructor
    · rintro ⟨id, hid, rfl⟩
      exact .id hid
    · rintro (_ | hid)
      exact ⟨_, hid, rfl⟩
  · constructor
    · rintro ⟨id, hid, parent, hparent, rfl⟩
      exact .parent hid hparent
    · rintro (_ | _ | ⟨hid, hparent⟩)
      exact ⟨_, hid, _, hparent, rfl⟩
  · constructor
    · rintro ⟨id, hid, parent, hparent, subject, hsubject, rfl⟩
      exact .subject hid hparent hsubject
    · rintro (_ | _ | _ | ⟨hid, hparent, hsubject⟩)
      exact ⟨_, hid, _, hparent, _, hsubject, rfl⟩
  · constructor
    · rintro ⟨id, hid, parent, hparent, subject, hsubject, author, hauthor, rfl⟩
      exact .author hid hparent hsubject hauthor
    · rintro (_ | _ | _ | _ | ⟨hid, hparent, hsubject, hauthor⟩)
      exact ⟨_, hid, _, hparent, _, hsubject, _, hauthor, rfl⟩

/-- The two ways to write a post. -/
theorem ofData?_eq_some_iff (d : Data) (p : Post) : ofData? d = some p ↔ Describes d p := by
  cases d with
  | record ms => exact ofMembers?_eq_some_iff
  | list ds => exact ofValues?_eq_some_iff
  | _ => exact ⟨nofun, nofun⟩

end Post

namespace Document

open Data

/-- The data that stand for a document: a list of posts, or a record with exactly one member `posts`,
which is such a list. -/
inductive Describes : Data → Document → Prop
  | bare {ds : List Data} {ps : List Post} :
      List.Forall₂ Post.Describes ds ps → Describes (.list ds) (.bare ps)
  | wrapped {ms : List (String × Data)} {ds : List Data} {ps : List Post} :
      Sole ["posts"] ms (.list ds) → List.Forall₂ Post.Describes ds ps →
      Describes (.record ms) (.wrapped ps)

variable {d : Data} {doc : Document}

theorem postsOf?_eq_some_iff {ps : List Post} :
    postsOf? d = some ps ↔ ∃ ds, d = .list ds ∧ List.Forall₂ Post.Describes ds ps := by
  unfold postsOf? listOf?
  split
  · simp [mapM_eq_some_iff, Post.ofData?_eq_some_iff]
  · next hd =>
    refine ⟨nofun, ?_⟩
    rintro ⟨ds, h, -⟩
    exact absurd h (hd ds)

theorem ofData?_eq_some_iff : ofData? d = some doc ↔ Describes d doc := by
  unfold ofData?
  split
  · simp only [Option.map_eq_some_iff, postsOf?_eq_some_iff]
    constructor
    · rintro ⟨ps, ⟨ds, hds, hps⟩, rfl⟩
      obtain rfl := list.inj hds
      exact .bare hps
    · rintro ⟨hps⟩
      exact ⟨_, ⟨_, rfl, hps⟩, rfl⟩
  · simp only [Option.map_eq_some_iff, required?_eq_some_iff, postsOf?_eq_some_iff]
    constructor
    · rintro ⟨ps, ⟨d, hd, ds, rfl, hps⟩, rfl⟩
      exact .wrapped hd hps
    · intro h
      cases h with
      | wrapped hd hps => exact ⟨_, ⟨_, hd, _, rfl, hps⟩, rfl⟩
  · next hlist hrecord =>
    refine ⟨nofun, fun h => ?_⟩
    cases h with
    | bare => exact absurd rfl (hlist _)
    | wrapped => exact absurd rfl (hrecord _)

/-- The value is looked at before the rest of the text, which makes no difference to what is
accepted. -/
theorem ofJson_eq_ok_iff {text : String} :
    ofJson text = .ok doc ↔ ∃ d, Json.read text.toList = .ok d ∧ ofData? d = some doc := by
  unfold ofJson Json.read
  simp only
  cases Json.readFront text.toList with
  | error f => simp
  | ok x =>
    obtain ⟨d, r⟩ := x
    simp only
    cases Json.readEnd r with
    | error f => cases ofData? d <;> simp
    | ok _ => cases hd : ofData? d <;> simp [hd]

/-- A text holds a document if and only if it holds data that stand for one. The numbers in the data
are those of which the text has the digits, without sign, fraction and exponent. -/
theorem ofJson_eq_ok_iff_describes (text : String) (doc : Document) :
    (ofJson text = .ok doc ↔ ∃ d, Json.read text.toList = .ok d ∧ Describes d doc) ∧
      (∀ d, ofData? d = some doc ↔ Describes d doc) ∧
      ∀ n s d r k, (Json.valueReader n).run s = .ok (d, r) →
        (IsNumber d k ↔ ∃ digits, Json.skipSpace s = digits ++ r ∧ Text.IsNumeral digits ∧
          Json.EndsNumber r ∧ Text.valueOfDigits 10 (digits.map Text.digitValue) = k.toNat) := by
  refine ⟨?_, fun d => ofData?_eq_some_iff, fun n s d r k hrun => ?_⟩
  · simp only [ofJson_eq_ok_iff, ofData?_eq_some_iff]
  · rw [← Json.run_valueReader_natural_iff n k, hrun, IsNumber]
    simp

/-- A wrapped document with members that are passed over, and both ways to write a post. -/
def exText : String :=
  "\x7b\"x\":[],\"posts\":[[1,null],\x7b\"x\":0,\"id\":2,\"parentid\":1,\"author\":null\x7d],\"x\":[]\x7d"

/-- A post with its parent under both names. -/
def exTwice : Data :=
  .record [("id", .integer 1), ("parent", .null), ("parentid", .integer 2)]

theorem ofJson_eq_ok_iff_describes_of_text :
    (∃ d, Json.read exText.toList = .ok d ∧
      Describes d (.wrapped [⟨1, none, "", none⟩, ⟨2, some 1, "", none⟩])) ∧
    (∀ doc, ¬Describes (.list [exTwice]) doc) ∧
    ∃ digits, Json.skipSpace [' ', '1', '2', ','] = digits ++ [','] ∧ Text.IsNumeral digits := by
  obtain ⟨hjson, -, -⟩ := ofJson_eq_ok_iff_describes exText
    (.wrapped [⟨1, none, "", none⟩, ⟨2, some 1, "", none⟩])
  have hread : (Json.valueReader 0).run [' ', '1', '2', ','] = .ok (.integer 12, [',']) := by
    rfl
  refine ⟨hjson.1 (Workspace.eq_ok_of_toOption (by decide +kernel)), fun doc hdoc => ?_, ?_⟩
  · have hnone : ofData? (.list [exTwice]) = none := by decide
    exact nomatch hnone.symm.trans (((ofJson_eq_ok_iff_describes exText doc).2.1 _).2 hdoc)
  · obtain ⟨-, -, hnumber⟩ := ofJson_eq_ok_iff_describes exText (.bare [])
    obtain ⟨digits, hs, hnumeral, -⟩ := (hnumber 0 _ _ _ 12 hread).1 rfl
    exact ⟨digits, hs, hnumeral⟩

end Document

end Discussion
