import Discussion.Command.Run
import Discussion.Proofs.Settings.Layers
import Discussion.Proofs.Toml.Tables

/-!
# Saved settings

Settings are shown as the text of a file. If that text is saved where the file of the working directory
is looked for, loading gives the same settings again, since the text chooses every one of them and only
variables override that file.

The integers of a file are signed, those of settings are not. Settings with a greater number than a file
can hold come from variables only, and cannot be shown.

* `Settings.Fits s`: the numbers can be written to a file.
* `Settings.shown s`: the text of the file, without the line feed at its end.

Results:
1. `Settings.toToml_of_fits`, `Settings.toToml_of_not_fits`: when there is a text, and which one.
2. `Settings.ofToml_shown`: what is read back from it.
3. `Settings.configShow_restores`: what is loaded once it has been saved.
-/

namespace Discussion

open Command (Host Request)

/-! ## Environments without settings -/

namespace Environment

/-- No variable has a name that begins, in whatever case, with `REPLYTREE_`. -/
def SetsNothing (env : Environment) : Prop :=
  ∀ b ∈ env.bindings, ¬ "replytree_".toList <+: (lowerCase b.1).toList

instance (env : Environment) : Decidable env.SetsNothing :=
  inferInstanceAs (Decidable (∀ b ∈ env.bindings, ¬ _))

variable {env : Environment}

theorem SetsNothing.not_gives (h : env.SetsNothing) (setting value : String) :
    ¬ env.Gives setting value := by
  rintro ⟨b, hb, hname, -⟩
  refine h b hb ?_
  rw [hname, String.toList_append]
  exact List.prefix_append _ _

theorem SetsNothing.ofEnvironment (h : env.SetsNothing) : Overlay.ofEnvironment env = .ok {} := by
  have hnone (setting : String) : settingVariable? env setting = none :=
    settingVariable?_eq_none_iff.2 (h.not_gives setting)
  simp only [Overlay.ofEnvironment, ofVariable, hnone]
  rfl

end Environment

namespace Settings

variable {s : Settings}

/-! ## What is written -/

/-- Both numbers are at most the greatest integer of a file. -/
structure Fits (s : Settings) : Prop where
  rootParentId : s.rootParentId.toNat ≤ 2 ^ 63 - 1
  indent : s.indent.toNat ≤ 2 ^ 63 - 1

theorem lt_signedLimit_iff {n : Nat} : (n : Int) < Data.signedLimit ↔ n ≤ 2 ^ 63 - 1 := by
  unfold Data.signedLimit
  omega

theorem writeAtom_name (f : Format) :
    Toml.writeAtom? (.text f.name) = some ('"' :: (f.name.toList ++ ['"'])) := by
  cases f <;> decide +kernel

/-- Settings as the lines of a file, without the line feed behind the last one. -/
def shown (s : Settings) : String :=
  "root_parent_id = " ++ toString (s.rootParentId.toNat : Int) ++
    "\nindent = " ++ toString (s.indent.toNat : Int) ++
    "\ndefault_format = \"" ++ s.defaultFormat.name ++ "\""

theorem toList_shown (s : Settings) : s.shown.toList =
    "root_parent_id = ".toList ++ (toString (s.rootParentId.toNat : Int)).toList ++
      "\nindent = ".toList ++ (toString (s.indent.toNat : Int)).toList ++
      "\ndefault_format = \"".toList ++ s.defaultFormat.name.toList ++ ['"'] := by
  unfold shown
  simp only [String.toList_append]
  rfl

theorem writeMembers_toMembers (h : s.Fits) :
    Toml.writeMembers? s.toMembers = some (s.shown.toList ++ ['\n']) := by
  simp only [toMembers, Toml.writeMembers?]
  rw [Toml.writeAtom_natural, if_pos (lt_signedLimit_iff.2 h.rootParentId),
    Toml.writeAtom_natural, if_pos (lt_signedLimit_iff.2 h.indent), writeAtom_name, toList_shown]
  simp

theorem writeMembers_toMembers_eq_none (h : ¬ s.Fits) : Toml.writeMembers? s.toMembers = none := by
  simp only [toMembers, Toml.writeMembers?, Toml.writeAtom_natural, lt_signedLimit_iff]
  split
  · split
    · next hroot hindent => exact absurd ⟨hroot, hindent⟩ h
    · rfl
  · rfl

/-- A definition that looks at what is written is unfolded as a function. For unknown settings the
kernel would else begin to write them, and compare their numbers with the bound bit by bit. -/
theorem toToml_eq : toToml = fun s => (Toml.writeMembers? s.toMembers).elim
    (.error "serialize settings: out-of-range value for u64 type")
    fun cs => .ok (String.ofList cs) := by
  delta toToml
  funext s
  cases Toml.writeMembers? s.toMembers <;> rfl

theorem toToml_of_fits (h : s.Fits) : s.toToml = .ok (s.shown ++ "\n") := by
  have htext : String.ofList (s.shown.toList ++ ['\n']) = s.shown ++ "\n" := by
    rw [String.ofList_append, String.ofList_toList]
  simp only [toToml_eq, writeMembers_toMembers h, Option.elim_some, htext]

theorem toToml_of_not_fits (h : ¬ s.Fits) :
    s.toToml = .error "serialize settings: out-of-range value for u64 type" := by
  simp only [toToml_eq, writeMembers_toMembers_eq_none h, Option.elim_none]

theorem fits_of_toToml {text : String} (htext : s.toToml = .ok text) : s.Fits := by
  by_contra hfits
  cases htext.symm.trans (toToml_of_not_fits hfits)

/-- The lines do not end in white space, so only the line feed behind them is trimmed. -/
theorem trimEnd_shown (s : Settings) : Text.trimEnd (s.shown ++ "\n") = s.shown := by
  obtain ⟨t, ht⟩ : ∃ t, s.shown.toList = t ++ ['"'] := ⟨_, toList_shown s⟩
  have hdrop : (s.shown ++ "\n").toList.reverse.dropWhile Text.isBlank = s.shown.toList.reverse := by
    rw [String.toList_append, ht, List.reverse_append, List.reverse_append]
    rfl
  rw [Text.trimEnd, hdrop, List.reverse_reverse, String.ofList_toList]

theorem runConfigShow_eq : Host.runConfigShow = fun h s =>
    h.outcome (s.toToml.mapError .configuration) fun text => { out := Text.trimEnd text ++ "\n" } := by
  delta Host.runConfigShow
  funext h s
  cases s.toToml <;> rfl

theorem run_configShow_of_ok {text : String} (htext : s.toToml = .ok text) (h : Host) :
    Request.run h s .configShow = { out := Text.trimEnd text ++ "\n" } := by
  show h.runConfigShow s = _
  simp only [runConfigShow_eq, htext]
  rfl

theorem run_configShow_of_error {reason : String} (herror : s.toToml = .error reason) (h : Host) :
    Request.run h s .configShow = h.failing (.configuration reason) := by
  show h.runConfigShow s = _
  simp only [runConfigShow_eq, herror]
  rfl

/-! ## What is read -/

/-- The overlay that chooses all settings. -/
def asOverlay (s : Settings) : Overlay :=
  ⟨some s.rootParentId, some s.indent, some s.defaultFormat⟩

theorem numberOfToml_natural (n : UInt64) : numberOfToml? (.integer n.toNat) = some n := by
  have hn : 0 ≤ (n.toNat : Int) ∧ (n.toNat : Int) < UInt64.size :=
    ⟨Int.natCast_nonneg _, Int.ofNat_lt.2 n.toNat_lt⟩
  rw [numberOfToml?, Data.natural?, if_pos hn, Int.toNat_natCast, UInt64.ofNat_toNat]

theorem ofToml_name (f : Format) : Format.ofToml? (.text f.name) = some f := by
  cases f <;> rfl

theorem ofTable_of_membersToData {vs : Toml.Members}
    (h : Toml.Value.membersToData vs = s.toMembers) : Overlay.ofTable? vs = some s.asOverlay := by
  rw [toMembers] at h
  obtain ⟨root, vs, rfl, hroot, h⟩ := Toml.membersToData_eq_cons_iff.1 h
  obtain ⟨indent, vs, rfl, hindent, h⟩ := Toml.membersToData_eq_cons_iff.1 h
  obtain ⟨format, vs, rfl, hformat, -⟩ := Toml.membersToData_eq_cons_iff.1 h
  obtain rfl := Toml.toData_eq_integer_iff.1 hroot
  obtain rfl := Toml.toData_eq_integer_iff.1 hindent
  obtain rfl := Toml.toData_eq_text_iff.1 hformat
  simp [Overlay.ofTable?, Overlay.member?, List.lookup_cons, numberOfToml_natural, ofToml_name,
    asOverlay]

/-- All settings are read back, with or without the line feed at the end. -/
theorem ofToml_shown (h : s.Fits) :
    Overlay.ofToml? (s.shown ++ "\n") = some s.asOverlay ∧
      Overlay.ofToml? s.shown = some s.asOverlay := by
  have hbare : ∀ m ∈ s.toMembers, Toml.IsBareName m.1 := by
    simp only [toMembers, List.forall_mem_cons, List.not_mem_nil, false_imp_iff, implies_true, and_true]
    decide
  have hnodup : (s.toMembers.map (·.1)).Nodup := by
    simp only [toMembers, List.map_cons, List.map_nil]
    decide
  obtain ⟨hread, hreadEnd⟩ := Toml.read_writeMembers (writeMembers_toMembers h) hbare hnodup
  rw [List.dropLast_concat] at hreadEnd
  obtain ⟨vs, hvs, hdata⟩ := Option.map_eq_some_iff.1 hread
  obtain ⟨vs', hvs', hdata'⟩ := Option.map_eq_some_iff.1 hreadEnd
  refine ⟨?_, ?_⟩
  · rw [Overlay.ofToml?, String.toList_append]
    exact Option.bind_eq_some_iff.2 ⟨vs, hvs, ofTable_of_membersToData hdata⟩
  · exact Option.bind_eq_some_iff.2 ⟨vs', hvs', ofTable_of_membersToData hdata'⟩

/-! ## What is loaded -/

theorem load_of_chosen {fs : FileSystem} {env : Environment} {dir : Path} {shared : Overlay}
    {text : String} (htext : Overlay.ofToml? text = some s.asOverlay)
    (hread : fs.read (localPath dir) = .ok text)
    (hshared : Overlay.FromFile fs (globalPath? env) shared) (henv : env.SetsNothing) :
    load fs env (some dir) = .ok s := by
  have hown : Overlay.FromFile fs (some (localPath dir)) s.asOverlay := .read hread htext
  rw [load, hshared.eq_ok, Option.map_some, hown.eq_ok, henv.ofEnvironment]
  rfl

/-- Settings have a text exactly if both numbers are at most the greatest integer of a file. Otherwise
showing them ends with an error.

The text, what is shown of it, and the same without the line feed at its end choose every setting, so
they turn any settings into these. Saved as the file of the working directory, each of them makes these
settings the ones that are loaded, whatever the file of the user chooses, if no variable is set. -/
theorem configShow_restores (s : Settings) :
    ((∃ text, s.toToml = .ok text) ↔
      s.rootParentId.toNat ≤ 2 ^ 63 - 1 ∧ s.indent.toNat ≤ 2 ^ 63 - 1) ∧
    (∀ reason, s.toToml = .error reason → ∀ h : Host,
      Request.run h s .configShow = h.failing (.configuration reason)) ∧
    ∀ text, s.toToml = .ok text → ∀ h : Host,
      Request.run h s .configShow = { out := Text.trimEnd text ++ "\n" } ∧
      ∀ saved ∈ [text, Text.trimEnd text, (Request.run h s .configShow).out],
        (∃ o, Overlay.ofToml? saved = some o ∧ o.rootParentId.isSome ∧ o.indent.isSome ∧
          o.defaultFormat.isSome ∧ ∀ base : Settings, base.overlay o = s) ∧
        ∀ (fs : FileSystem) (env : Environment) (dir : Path) (shared : Overlay),
          fs.read (localPath dir) = .ok saved → Overlay.FromFile fs (globalPath? env) shared →
            env.SetsNothing → load fs env (some dir) = .ok s := by
  refine ⟨⟨fun ⟨text, htext⟩ => ?_, fun ⟨hroot, hindent⟩ => ⟨_, toToml_of_fits ⟨hroot, hindent⟩⟩⟩,
    fun _ => run_configShow_of_error, fun text htext h => ⟨run_configShow_of_ok htext h, ?_⟩⟩
  · have hfits := fits_of_toToml htext
    exact ⟨hfits.rootParentId, hfits.indent⟩
  · have hfits := fits_of_toToml htext
    obtain ⟨hread, hreadEnd⟩ := ofToml_shown hfits
    obtain rfl : s.shown ++ "\n" = text := Except.ok.inj ((toToml_of_fits hfits).symm.trans htext)
    rw [run_configShow_of_ok htext, trimEnd_shown]
    intro saved hsaved
    have hchosen : Overlay.ofToml? saved = some s.asOverlay := by
      simp only [List.mem_cons, List.not_mem_nil, or_false] at hsaved
      rcases hsaved with rfl | rfl | rfl
      · exact hread
      · exact hreadEnd
      · exact hread
    exact ⟨⟨_, hchosen, rfl, rfl, rfl, fun _ => rfl⟩, fun _ _ _ _ => load_of_chosen hchosen⟩

def exShown : String :=
  "root_parent_id = 9223372036854775807\nindent = 3\ndefault_format = \"toml\"\n"

/-- The greatest number that can be saved, above a file of the user that chooses another one; the next
number cannot be saved. -/
theorem configShow_restores_of_files :
    load (exFiles "root_parent_id = 4" exShown) (.ofBindings [("HOME", "/home/u")]) (some ⟨"/work"⟩) =
      .ok ⟨9223372036854775807, 3, .toml⟩ ∧
    ¬ ∃ text, (⟨9223372036854775808, 3, .toml⟩ : Settings).toToml = .ok text := by
  have htext : (⟨9223372036854775807, 3, .toml⟩ : Settings).toToml = .ok exShown :=
    Workspace.eq_ok_of_toOption (by decide +kernel)
  have hglobal : globalPath? (.ofBindings [("HOME", "/home/u")]) =
      some ⟨"/home/u/.config/replytree/replytree.toml"⟩ := by decide +kernel
  have hlocal : localPath ⟨"/work"⟩ = ⟨"/work/.replytree.toml"⟩ := by decide +kernel
  have hshared : Overlay.FromFile (exFiles "root_parent_id = 4" exShown)
      (globalPath? (.ofBindings [("HOME", "/home/u")])) ⟨some 4, none, none⟩ := by
    rw [hglobal]
    exact .read rfl (by decide +kernel)
  have hrestored := (configShow_restores _).2.2 exShown htext
    { files := exFiles "" "", environment := {}, directory := none }
  refine ⟨(hrestored.2 exShown (by simp)).2 _ _ _ _ ?_ hshared (by decide +kernel),
    mt (configShow_restores _).1.1 (by decide)⟩
  rw [hlocal]
  rfl

end Settings

end Discussion
