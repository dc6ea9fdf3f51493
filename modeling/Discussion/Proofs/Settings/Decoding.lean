import Mathlib.Tactic.ByContra
import Discussion.Proofs.Json.Nulls
import Discussion.Settings.Text

/-!
# Settings and overlays of one text

A text can be read as settings, where what it does not mention has its default, and as an overlay, where
it is not chosen. Settings are what the overlay makes of the defaults. The two readings differ only on
JSON texts that give a null: an overlay takes it for no choice, and settings refuse it.

* `Settings.GivesNull text name`: the text gives the setting of the name as null.

Results:
1. `Settings.ofTable?_eq_map`, `Settings.ofData?_eq_map`: tables, and records without nulls.
2. `Settings.ofJson?_eq_some_iff`: JSON texts.
3. `Settings.decoded_as_overlay`: both formats.
-/

namespace Discussion

universe u

variable {α : Type u}

/-! ## Members that may be missing -/

/-- A member that is not null is read alike, whether it may be null or not. -/
theorem Data.optional?_eq_map {ms : List (String × Data)} (h : NoNulls ms) (names : List String)
    (read : Data → Option α) (missing : α) :
    optional? names read missing ms =
      (optional? names (nullable? read) none ms).map fun x => x.getD missing := by
  unfold optional?
  split
  · rfl
  · next d hvalues =>
    have hd : d ≠ .null := by
      have hmem : d ∈ valuesOf names ms := hvalues ▸ List.mem_singleton_self d
      obtain ⟨m, hm, rfl⟩ := List.mem_map.1 hmem
      exact h m (List.mem_filter.1 hm |>.1)
    have hnullable : nullable? read d = (read d).map some := by
      cases d <;> first | rfl | exact absurd rfl hd
    rw [hnullable, Option.map_map]
    exact Option.map_id'.symm
  · rfl

namespace Settings

theorem memberOr?_eq_map (name : String) (read : Toml.Value → Option α) (missing : α)
    (ms : Toml.Members) :
    memberOr? name read missing ms =
      (Overlay.member? name read ms).map fun x => x.getD missing := by
  unfold memberOr? Overlay.member?
  cases ms.lookup name with
  | none => rfl
  | some v =>
    rw [Option.map_map]
    exact Option.map_id'.symm

/-! ## Tables and records -/

/-- Choosing a default where there is no choice is changing the defaults by the choices. -/
theorem assemble_eq_map (a b : Option (Option UInt64)) (c : Option (Option Format)) :
    (do
      let rootParentId ← a.map fun x => x.getD 0
      let indent ← b.map fun x => x.getD 2
      let defaultFormat ← c.map fun x => x.getD .json
      some ({ rootParentId, indent, defaultFormat } : Settings)) =
    (do
      let rootParentId ← a
      let indent ← b
      let defaultFormat ← c
      some ({ rootParentId, indent, defaultFormat } : Overlay)).map ({} : Settings).overlay := by
  cases a <;> cases b <;> cases c <;> rfl

theorem ofTable?_eq_map (ms : Toml.Members) :
    ofTable? ms = (Overlay.ofTable? ms).map ({} : Settings).overlay := by
  unfold ofTable? Overlay.ofTable?
  rw [memberOr?_eq_map, memberOr?_eq_map, memberOr?_eq_map]
  exact assemble_eq_map _ _ _

theorem ofData?_eq_map {ms : List (String × Data)} (h : Data.NoNulls ms) :
    ofData? (.record ms) = (Overlay.ofData? (.record ms)).map ({} : Settings).overlay := by
  dsimp only [ofData?, Overlay.ofData?]
  rw [Data.optional?_eq_map h _ Data.natural? 0, Data.optional?_eq_map h _ Data.natural? 2,
    Data.optional?_eq_map h _ Format.ofData?]
  exact assemble_eq_map _ _ _

/-! ## Texts -/

theorem ofToml?_eq_map (text : String) :
    ofToml? text = (Overlay.ofToml? text).map ({} : Settings).overlay := by
  rw [ofToml?, Overlay.ofToml?, Option.map_bind]
  exact Option.bind_congr fun ms _ => ofTable?_eq_map ms

theorem strict_shape : Json.Strict (shape false).slots := by
  simp [Json.Strict, shape]

theorem orNull_shape : (shape false).orNull = shape true :=
  rfl

/-- The text gives the setting of the name as null. -/
def GivesNull (text name : String) : Prop :=
  ∃ ms, (shape true).read text.toList = .ok (.record ms) ∧ (name, .null) ∈ ms

theorem read_shape_iff {text : String} {ms : List (String × Data)} :
    (shape false).read text.toList = .ok (.record ms) ↔
      (shape true).read text.toList = .ok (.record ms) ∧ ∀ name, ¬ GivesNull text name := by
  rw [Json.Shape.read_eq_ok_iff_orNull strict_shape, orNull_shape]
  refine and_congr_right fun hread => ?_
  constructor
  · rintro hms name ⟨ms', hread', hmem⟩
    cases hread.symm.trans hread'
    exact hms _ hmem rfl
  · rintro hno ⟨name, d⟩ hmem rfl
    exact hno name ⟨ms, hread, hmem⟩

theorem ofJson?_eq_some_iff_read {text : String} {s : Settings} :
    ofJson? text = some s ↔ ∃ ms, (shape false).read text.toList = .ok (.record ms) ∧
      ofData? (.record ms) = some s := by
  unfold ofJson?
  rcases (shape false).read_cases text.toList with ⟨p, h⟩ | ⟨ms, h⟩ <;> simp [h]

end Settings

theorem Overlay.ofJson?_eq_some_iff_read {text : String} {o : Overlay} :
    ofJson? text = some o ↔ ∃ ms, (Settings.shape true).read text.toList = .ok (.record ms) ∧
      ofData? (.record ms) = some o := by
  unfold ofJson?
  rcases (Settings.shape true).read_cases text.toList with ⟨p, h⟩ | ⟨ms, h⟩ <;> simp [h]

namespace Settings

theorem ofJson?_eq_some_iff {text : String} {s : Settings} :
    ofJson? text = some s ↔ ∃ o, Overlay.ofJson? text = some o ∧ s = ({} : Settings).overlay o ∧
      ∀ name, ¬ GivesNull text name := by
  simp only [ofJson?_eq_some_iff_read, Overlay.ofJson?_eq_some_iff_read]
  constructor
  · rintro ⟨ms, hread, hdata⟩
    have hms := (Json.Shape.read_eq_ok_iff_orNull strict_shape).1 hread
    obtain ⟨hread, hnull⟩ := read_shape_iff.1 hread
    rw [ofData?_eq_map hms.2, Option.map_eq_some_iff] at hdata
    obtain ⟨o, ho, rfl⟩ := hdata
    exact ⟨o, ⟨ms, hread, ho⟩, rfl, hnull⟩
  · rintro ⟨o, ⟨ms, hread, ho⟩, rfl, hnull⟩
    have hread := read_shape_iff.2 ⟨hread, hnull⟩
    have hms := (Json.Shape.read_eq_ok_iff_orNull strict_shape).1 hread
    refine ⟨ms, hread, ?_⟩
    rw [ofData?_eq_map hms.2, ho]
    rfl

theorem GivesNull.name_mem {text name : String} (h : GivesNull text name) :
    name ∈ ["root_parent_id", "indent", "default_format"] := by
  obtain ⟨ms, hread, hmem⟩ := h
  exact Json.Shape.names_of_read hread _ hmem

/-- A text that can be read as settings can be read as an overlay, and gives what the overlay makes of
the defaults. In TOML the two readings accept the same texts. In JSON, what is read only as an overlay
gives a null for one of the settings, and a text that does so is not read as settings. -/
theorem decoded_as_overlay :
    (∀ text, ofToml? text = (Overlay.ofToml? text).map ({} : Settings).overlay) ∧
    (∀ text s, ofJson? text = some s →
      ∃ o, Overlay.ofJson? text = some o ∧ s = ({} : Settings).overlay o) ∧
    (∀ text o, Overlay.ofJson? text = some o → ofJson? text = none →
      ∃ name ∈ ["root_parent_id", "indent", "default_format"], GivesNull text name) ∧
    ∀ text name, GivesNull text name → ofJson? text = none := by
  refine ⟨ofToml?_eq_map, fun text s h => ?_, fun text o ho hnone => ?_, fun text name hnull => ?_⟩
  · obtain ⟨o, ho, hs, _⟩ := ofJson?_eq_some_iff.1 h
    exact ⟨o, ho, hs⟩
  · by_contra hno
    -- a null can only be given for one of the three settings
    have hgives : ∀ name, ¬ GivesNull text name := fun name h => hno ⟨name, h.name_mem, h⟩
    cases hnone.symm.trans (ofJson?_eq_some_iff.2 ⟨o, ho, rfl, hgives⟩)
  · refine Option.eq_none_iff_forall_ne_some.2 fun s hs => ?_
    obtain ⟨_, _, _, hgives⟩ := ofJson?_eq_some_iff.1 hs
    exact hgives name hnull

/-- A JSON text that chooses a format, and gives no width. -/
def exText : String :=
  "\x7b\"default_format\":\"toml\",\"indent\":null\x7d"

theorem decoded_as_overlay_of_texts :
    ofToml? "indent = 4" = some { indent := 4 } ∧
    (∃ o, Overlay.ofJson? "[7]" = some o ∧
      ({ rootParentId := 7 } : Settings) = ({} : Settings).overlay o) ∧
    Overlay.ofJson? exText = some { defaultFormat := some .toml } ∧
    (∃ name ∈ ["root_parent_id", "indent", "default_format"], GivesNull exText name) ∧
    ofJson? exText = none := by
  obtain ⟨htoml, hjson, hnull, hrefused⟩ := decoded_as_overlay
  have hoverlay : Overlay.ofJson? exText = some { defaultFormat := some .toml } := by decide +kernel
  have hnone : ofJson? exText = none := by decide +kernel
  have hwidth : Overlay.ofToml? "indent = 4" = some { indent := some 4 } := by decide +kernel
  obtain ⟨name, hname, hgives⟩ := hnull exText _ hoverlay hnone
  refine ⟨?_, hjson "[7]" _ (by decide +kernel), hoverlay, ⟨name, hname, hgives⟩,
    hrefused exText name hgives⟩
  rw [htoml, hwidth]
  rfl

end Settings

end Discussion
