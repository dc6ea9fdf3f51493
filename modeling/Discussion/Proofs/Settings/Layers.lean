import Discussion.Proofs.Settings.Values
import Discussion.Proofs.Threading.Lineage

/-!
# Layers of settings

What each layer of the settings says, and how the layers make up the settings of a run.

* `Environment.Gives env setting value`: a variable gives the setting this value.
* `Overlay.FromFile fs path o`, `FromVariable env setting means o`: what a file and a variable choose.
* `Layer.Fails fs env dir layer reason`: the layer cannot be read, whatever other layers say.

Results:
1. `bind_eq_error_iff_append`: a run in stages fails with the first stage that does.
2. `Overlay.ofFile?_iff`, `ofVariable_iff`: one layer.
3. `Settings.load_layers`: all layers.
-/

namespace Discussion

universe u

open Threaded (FirstWith firstWith_cons exists_firstWith_iff)
open Workspace (bind_eq_ok_iff bind_eq_error_iff eq_iff_of_total)

/-! ## Stages -/

section Stages

variable {ε : Type} {σ : Type u} {α β : Type} {fails : σ → ε → Prop} {stage : σ} {later : List σ}

/-- The first of the stages that fail fails with this error. -/
def FirstFailing (fails : σ → ε → Prop) (stages : List σ) (e : ε) : Prop :=
  ∃ s, FirstWith (fun s => ∃ e, fails s e) stages s ∧ fails s e

theorem exists_firstFailing_iff {stages : List σ} :
    (∃ e, FirstFailing fails stages e) ↔ ∃ s ∈ stages, ∃ e, fails s e := by
  rw [← exists_firstWith_iff]
  constructor
  · rintro ⟨e, s, hs, -⟩
    exact ⟨s, hs⟩
  · rintro ⟨s, hs⟩
    obtain ⟨e, he⟩ := hs.mem.2
    exact ⟨e, s, hs, he⟩

theorem not_firstFailing_nil {e : ε} : ¬ FirstFailing fails [] e := by
  rintro ⟨s, hs, -⟩
  exact List.not_mem_nil hs.mem.1

theorem firstFailing_cons_of_fails {e : ε} (h : fails stage e) {e' : ε} :
    FirstFailing fails (stage :: later) e' ↔ fails stage e' := by
  simp only [FirstFailing, firstWith_cons]
  constructor
  · rintro ⟨s, ⟨-, rfl⟩ | ⟨hno, -⟩, hs⟩
    · exact hs
    · exact absurd ⟨e, h⟩ hno
  · intro he
    exact ⟨stage, .inl ⟨⟨e, h⟩, rfl⟩, he⟩

theorem firstFailing_cons_of_not (h : ∀ e, ¬ fails stage e) {e : ε} :
    FirstFailing fails (stage :: later) e ↔ FirstFailing fails later e := by
  simp only [FirstFailing, firstWith_cons, h, exists_false, false_and, not_false_eq_true, true_and,
    false_or]

theorem firstFailing_singleton {e : ε} : FirstFailing fails [stage] e ↔ fails stage e := by
  by_cases h : ∃ e, fails stage e
  · obtain ⟨e', he'⟩ := h
    exact firstFailing_cons_of_fails he'
  · rw [firstFailing_cons_of_not (not_exists.1 h)]
    exact ⟨fun hno => absurd hno not_firstFailing_nil, fun he => absurd ⟨e, he⟩ h⟩

theorem firstFailing_append {stages : List σ} {e : ε} :
    FirstFailing fails (stages ++ later) e ↔
      FirstFailing fails stages e ∨
        (∀ e', ¬ FirstFailing fails stages e') ∧ FirstFailing fails later e := by
  induction stages with
  | nil => simp [not_firstFailing_nil]
  | cons s stages ih =>
    rw [List.cons_append]
    by_cases h : ∃ e, fails s e
    · obtain ⟨e', he'⟩ := h
      simp only [firstFailing_cons_of_fails he']
      exact ⟨.inl, fun h => h.resolve_right fun hno => hno.1 e' he'⟩
    · simp only [firstFailing_cons_of_not (not_exists.1 h)]
      exact ih

/-- If the first stages are gone through, a run fails like the rest of it; otherwise it fails like
they do. -/
theorem bind_eq_error_iff_append {stages : List σ} {x : Except ε α} {g : α → Except ε β}
    (hx : ∀ e, x = .error e ↔ FirstFailing fails stages e)
    (hg : ∀ a, x = .ok a → ∀ e, g a = .error e ↔ FirstFailing fails later e) (e : ε) :
    (x >>= g) = .error e ↔ FirstFailing fails (stages ++ later) e := by
  rw [firstFailing_append, ← hx]
  cases x with
  | error e' =>
    have hno : ¬ ∀ e, ¬ FirstFailing fails stages e := fun hno => hno e' ((hx e').1 rfl)
    show (Except.error e' : Except ε β) = .error e ↔ _
    simp only [Except.error.injEq, hno, false_and, or_false]
  | ok a =>
    have hno : ∀ e, ¬ FirstFailing fails stages e := fun e he => nomatch (hx e).2 he
    show g a = .error e ↔ _
    simp only [hg a rfl e, hno, not_false_eq_true, implies_true, true_and, reduceCtorEq, false_or]

theorem bind_eq_error_iff_first {x : Except ε α} {g : α → Except ε β}
    (hx : ∀ e, x = .error e ↔ fails stage e)
    (hg : ∀ a, x = .ok a → ∀ e, g a = .error e ↔ FirstFailing fails later e) (e : ε) :
    (x >>= g) = .error e ↔ FirstFailing fails (stage :: later) e :=
  bind_eq_error_iff_append (fun e => (hx e).trans firstFailing_singleton.symm) hg e

end Stages

/-! ## Files -/

namespace Overlay

variable {fs : FileSystem} {path : Option Path} {o : Overlay} {e : Error}

/-- What the file at a path chooses; nothing if there is no path, or nothing there. -/
inductive FromFile (fs : FileSystem) : Option Path → Overlay → Prop
  | nowhere : FromFile fs none {}
  | missing {p : Path} : fs.exists? p = false → FromFile fs (some p) {}
  | read {p : Path} {text : String} {o : Overlay} :
      fs.read p = .ok text → ofToml? text = some o → FromFile fs (some p) o

/-- The file at a path is there, but it cannot be read or does not say what to choose. -/
inductive FileFails (fs : FileSystem) : Option Path → String → Prop
  | unreadable {p : Path} {e : ReadError} : fs.exists? p → fs.read p = .error e →
      FileFails fs (some p) ("read " ++ p.text ++ ": " ++ e.message)
  | unparsable {p : Path} {text : String} : fs.read p = .ok text → ofToml? text = none →
      FileFails fs (some p) ("parse " ++ p.text ++ ": " ++ Document.malformedToml)

theorem exists_of_read {p : Path} {text : String} (h : fs.read p = .ok text) : fs.exists? p := by
  unfold FileSystem.read at h
  unfold FileSystem.exists?
  cases hentry : fs.entry? p with
  | none => rw [hentry] at h; cases h
  | some entry => rfl

/-- A file makes a choice, or it fails. -/
theorem fromFile_or_fileFails (fs : FileSystem) (path : Option Path) :
    (∃ o, FromFile fs path o) ∨ ∃ reason, FileFails fs path reason := by
  cases path with
  | none => exact .inl ⟨_, .nowhere⟩
  | some p =>
    cases hexists : fs.exists? p with
    | false => exact .inl ⟨_, .missing hexists⟩
    | true =>
      cases hread : fs.read p with
      | error e => exact .inr ⟨_, .unreadable hexists hread⟩
      | ok text =>
        cases htoml : ofToml? text with
        | none => exact .inr ⟨_, .unparsable hread htoml⟩
        | some o => exact .inl ⟨o, .read hread htoml⟩

theorem FromFile.eq_ok (h : FromFile fs path o) : ofFile? fs path = .ok o := by
  cases h with
  | nowhere => rfl
  | missing hexists => simp [ofFile?, hexists]
  | read hread htoml => simp [ofFile?, exists_of_read hread, ofFile, hread, htoml]

theorem FileFails.eq_error {reason : String} (h : FileFails fs path reason) :
    ofFile? fs path = .error (.configuration reason) := by
  cases h with
  | unreadable hexists hread => simp [ofFile?, hexists, ofFile, hread]
  | unparsable hread htoml => simp [ofFile?, exists_of_read hread, ofFile, hread, htoml]

theorem FromFile.not_fileFails (h : FromFile fs path o) {reason : String} : ¬ FileFails fs path reason :=
  fun hfails => nomatch h.eq_ok.symm.trans hfails.eq_error

theorem ofFile?_iff (fs : FileSystem) (path : Option Path) :
    (∀ o, ofFile? fs path = .ok o ↔ FromFile fs path o) ∧
    ∀ e, ofFile? fs path = .error e ↔ ∃ reason, FileFails fs path reason ∧ e = .configuration reason := by
  refine eq_iff_of_total ?_ (fun _ => FromFile.eq_ok) ?_
  · exact (fromFile_or_fileFails fs path).imp_right fun ⟨reason, h⟩ => ⟨_, reason, h, rfl⟩
  · rintro _ ⟨reason, h, rfl⟩
    exact h.eq_error

end Overlay

/-! ## Variables -/

namespace Environment

/-- The environment gives a setting this value: a variable of its name, in whatever case, has it. -/
def Gives (env : Environment) (setting value : String) : Prop :=
  ∃ b ∈ env.bindings, lowerCase b.1 = "replytree_" ++ setting ∧ b.2 = value

/-- The settings that variables can give. -/
def settingNames : List String :=
  ["root_parent_id", "indent", "default_format"]

/-- Whether a variable speaks of a part of a setting: behind the name of the setting it goes on with
a mark and the name of the part. -/
def isPartOf (setting name : String) : Bool :=
  ["__", ".", "["].any fun mark =>
    (("replytree_" ++ setting ++ mark).toList.isPrefixOf? (lowerCase name).toList).any (!·.isEmpty)

/-- No setting is given by two variables, and no variable speaks of a part of a setting. -/
structure Plain (env : Environment) : Prop where
  single : ∀ setting ∈ settingNames,
    (env.bindings.filter fun b => lowerCase b.1 = "replytree_" ++ setting).length ≤ 1
  whole : ∀ setting ∈ settingNames, ∀ b ∈ env.bindings, isPartOf setting b.1 = false

instance (env : Environment) : Decidable env.Plain :=
  decidable_of_iff
    ((∀ setting ∈ settingNames,
        (env.bindings.filter fun b => lowerCase b.1 = "replytree_" ++ setting).length ≤ 1) ∧
      ∀ setting ∈ settingNames, ∀ b ∈ env.bindings, isPartOf setting b.1 = false)
    ⟨fun h => ⟨h.1, h.2⟩, fun h => ⟨h.single, h.whole⟩⟩

variable {env : Environment} {setting value : String}

theorem settingVariable?_eq (env : Environment) (setting : String) : settingVariable? env setting =
    ((env.bindings.filter fun b => lowerCase b.1 = "replytree_" ++ setting).getLast?).map (·.2) := by
  rw [settingVariable?, ← List.head?_filter, List.filter_reverse, List.head?_reverse]

theorem gives_iff_mem_filter : env.Gives setting value ↔
    ∃ b ∈ env.bindings.filter fun b => lowerCase b.1 = "replytree_" ++ setting, b.2 = value := by
  simp only [Gives, List.mem_filter, decide_eq_true_eq, and_assoc]

theorem settingVariable?_eq_none_iff :
    settingVariable? env setting = none ↔ ∀ value, ¬ env.Gives setting value := by
  rw [settingVariable?_eq, Option.map_eq_none_iff, List.getLast?_eq_none_iff,
    List.eq_nil_iff_forall_not_mem]
  simp only [gives_iff_mem_filter]
  constructor
  · rintro hno value ⟨b, hb, -⟩
    exact hno b hb
  · intro hno b hb
    exact hno b.2 ⟨b, hb, rfl⟩

theorem Plain.settingVariable?_eq_some_iff (h : env.Plain) (hsetting : setting ∈ settingNames) :
    settingVariable? env setting = some value ↔ env.Gives setting value := by
  have hsingle := h.single setting hsetting
  rw [settingVariable?_eq, gives_iff_mem_filter]
  generalize env.bindings.filter _ = bs at hsingle
  match bs, hsingle with
  | [], _ => simp
  | [b], _ => simp

end Environment

section Variables

variable {α : Type} {env : Environment} {setting : String} {read : String → Except String α}
  {means : String → α → Prop} {refuses : String → String → Prop}

/-- What the variable of a setting chooses, by what its value means without the white space around it. -/
inductive FromVariable (env : Environment) (setting : String) (means : String → α → Prop) :
    Option α → Prop
  | unset : (∀ value, ¬ env.Gives setting value) → FromVariable env setting means none
  | set {value : String} {a : α} : env.Gives setting value → means (Text.trim value) a →
      FromVariable env setting means (some a)

/-- The variable of a setting is there, but its value does not say what to choose. -/
inductive VariableFails (env : Environment) (setting : String) (refuses : String → String → Prop) :
    String → Prop
  | unreadable {value reason : String} : env.Gives setting value → refuses (Text.trim value) reason →
      VariableFails env setting refuses ("REPLYTREE_" ++ setting.map Char.toUpper ++ ": " ++ reason)

/-- Texts are read by what they say, and refused otherwise. -/
def Reads (read : String → Except String α) (means : String → α → Prop)
    (refuses : String → String → Prop) : Prop :=
  ∀ text, (∀ a, read text = .ok a ↔ means text a) ∧ ∀ reason, read text = .error reason ↔ refuses text reason

theorem not_variableFails (h : ∀ value, ¬ env.Gives setting value) {reason : String} :
    ¬ VariableFails env setting refuses reason := by
  rintro ⟨hvalue, -⟩
  exact h _ hvalue

theorem fromVariable_or_variableFails (env : Environment) (setting : String)
    (hread : Reads read means refuses) :
    (∃ a, FromVariable env setting means a) ∨ ∃ reason, VariableFails env setting refuses reason := by
  by_cases hset : ∃ value, env.Gives setting value
  · obtain ⟨value, hvalue⟩ := hset
    obtain ⟨hok, herror⟩ := hread (Text.trim value)
    cases htrim : read (Text.trim value) with
    | ok a => exact .inl ⟨_, .set hvalue ((hok a).1 htrim)⟩
    | error reason => exact .inr ⟨_, .unreadable hvalue ((herror reason).1 htrim)⟩
  · exact .inl ⟨_, .unset fun value hvalue => hset ⟨value, hvalue⟩⟩

section Plain

variable (h : env.Plain) (hsetting : setting ∈ Environment.settingNames) (hread : Reads read means refuses)

include h hsetting hread

theorem FromVariable.eq_ok {a : Option α} (ha : FromVariable env setting means a) :
    ofVariable env setting read = .ok a := by
  cases ha with
  | unset hno => simp [ofVariable, Environment.settingVariable?_eq_none_iff.2 hno]
  | set hvalue hmeans =>
    simp [ofVariable, (h.settingVariable?_eq_some_iff hsetting).2 hvalue, ((hread _).1 _).2 hmeans]

theorem VariableFails.eq_error {reason : String} (hfails : VariableFails env setting refuses reason) :
    ofVariable env setting read = .error (.configuration reason) := by
  cases hfails with
  | unreadable hvalue hrefuses =>
    simp [ofVariable, (h.settingVariable?_eq_some_iff hsetting).2 hvalue, ((hread _).2 _).2 hrefuses]

theorem ofVariable_iff :
    (∀ a, ofVariable env setting read = .ok a ↔ FromVariable env setting means a) ∧
    ∀ e, ofVariable env setting read = .error e ↔
      ∃ reason, VariableFails env setting refuses reason ∧ e = .configuration reason := by
  refine eq_iff_of_total ?_ (fun _ => FromVariable.eq_ok h hsetting hread) ?_
  · exact (fromVariable_or_variableFails env setting hread).imp_right
      fun ⟨reason, hfails⟩ => ⟨_, reason, hfails, rfl⟩
  · rintro _ ⟨reason, hfails, rfl⟩
    exact hfails.eq_error h hsetting hread

end Plain

theorem ofVariable_eq_error {e : Error} (he : ofVariable env setting read = .error e) :
    ∃ reason, e = .configuration reason := by
  unfold ofVariable at he
  split at he
  · cases he
  · split at he
    · cases he
    · cases he
      exact ⟨_, rfl⟩

end Variables

/-! ## All layers -/

/-- The layers of settings above the defaults. -/
inductive Layer where
  | shared
  | own
  | rootParentId
  | indent
  | defaultFormat
deriving DecidableEq, Repr

namespace Layer

/-- The layers in the order in which they are read. -/
def order : List Layer :=
  [shared, own, rootParentId, indent, defaultFormat]

theorem mem_order (layer : Layer) : layer ∈ order := by
  cases layer <;> decide

/-- The layer cannot be read, for this reason. -/
def Fails (fs : FileSystem) (env : Environment) (dir : Option Path) : Layer → String → Prop
  | shared => Overlay.FileFails fs (globalPath? env)
  | own => Overlay.FileFails fs (dir.map localPath)
  | rootParentId => VariableFails env "root_parent_id" Word.Unwritten
  | indent => VariableFails env "indent" Word.Unwritten
  | defaultFormat => VariableFails env "default_format" Format.Unnamed

/-- The layer makes a run end with this error. -/
def FailsWith (fs : FileSystem) (env : Environment) (dir : Option Path) (layer : Layer) (e : Error) :
    Prop :=
  ∃ reason, layer.Fails fs env dir reason ∧ e = .configuration reason

end Layer

/-- What the two files and the variables choose. -/
structure Layer.Choose (fs : FileSystem) (env : Environment) (dir : Option Path)
    (shared own given : Overlay) : Prop where
  shared : Overlay.FromFile fs (globalPath? env) shared
  own : Overlay.FromFile fs (dir.map localPath) own
  rootParentId : FromVariable env "root_parent_id" Word.Written given.rootParentId
  indent : FromVariable env "indent" Word.Written given.indent
  defaultFormat : FromVariable env "default_format" Format.Named given.defaultFormat

namespace Settings

variable {fs : FileSystem} {env : Environment} {dir : Option Path} {s : Settings} {e : Error}

theorem ofEnvironment_eq_ok_iff (h : env.Plain) {given : Overlay} :
    Overlay.ofEnvironment env = .ok given ↔
      FromVariable env "root_parent_id" Word.Written given.rootParentId ∧
      FromVariable env "indent" Word.Written given.indent ∧
      FromVariable env "default_format" Format.Named given.defaultFormat := by
  have hroot := (ofVariable_iff h (show "root_parent_id" ∈ _ by decide) readWord_iff).1
  have hindent := (ofVariable_iff h (show "indent" ∈ _ by decide) readWord_iff).1
  have hformat := (ofVariable_iff h (show "default_format" ∈ _ by decide) Format.parse_iff).1
  simp only [Overlay.ofEnvironment, bind_eq_ok_iff, hroot, hindent, hformat]
  constructor
  · rintro ⟨rootParentId, hroot, indent, hindent, format, hformat, heq⟩
    cases heq
    exact ⟨hroot, hindent, hformat⟩
  · rintro ⟨hroot, hindent, hformat⟩
    exact ⟨_, hroot, _, hindent, _, hformat, rfl⟩

theorem load_eq_ok_iff (h : env.Plain) : load fs env dir = .ok s ↔
    ∃ shared own given, Layer.Choose fs env dir shared own given ∧
      s = ((({} : Settings).overlay shared).overlay own).overlay given := by
  simp only [load, bind_eq_ok_iff, (Overlay.ofFile?_iff _ _).1, ofEnvironment_eq_ok_iff h]
  constructor
  · rintro ⟨shared, hshared, own, hown, given, ⟨hroot, hindent, hformat⟩, heq⟩
    cases heq
    exact ⟨shared, own, given, ⟨hshared, hown, hroot, hindent, hformat⟩, rfl⟩
  · rintro ⟨shared, own, given, hchoose, rfl⟩
    exact ⟨shared, hchoose.shared, own, hchoose.own, given,
      ⟨hchoose.rootParentId, hchoose.indent, hchoose.defaultFormat⟩, rfl⟩

theorem ofEnvironment_eq_error_iff (h : env.Plain) : Overlay.ofEnvironment env = .error e ↔
    FirstFailing (Layer.FailsWith fs env dir) [.rootParentId, .indent, .defaultFormat] e := by
  refine bind_eq_error_iff_first (ofVariable_iff h (by decide) readWord_iff).2 (fun rootParentId _ => ?_) e
  refine bind_eq_error_iff_first (ofVariable_iff h (by decide) readWord_iff).2 (fun indent _ => ?_)
  refine bind_eq_error_iff_first (ofVariable_iff h (by decide) Format.parse_iff).2 (fun format _ e => ?_)
  exact ⟨nofun, fun hno => absurd hno not_firstFailing_nil⟩

theorem load_eq_error_iff (h : env.Plain) : load fs env dir = .error e ↔
    FirstFailing (Layer.FailsWith fs env dir) Layer.order e := by
  refine bind_eq_error_iff_first (Overlay.ofFile?_iff _ _).2 (fun shared _ => ?_) e
  refine bind_eq_error_iff_first (Overlay.ofFile?_iff _ _).2 (fun own _ e => ?_)
  rw [← ofEnvironment_eq_error_iff h]
  cases Overlay.ofEnvironment env with
  | ok given => exact ⟨nofun, nofun⟩
  | error e' =>
    exact ⟨fun he => congrArg _ (Except.error.inj he), fun he => congrArg _ (Except.error.inj he)⟩

/-- Whatever the variables are, loading fails with no other error than one of settings. -/
theorem load_eq_error (h : load fs env dir = .error e) : ∃ reason, e = .configuration reason := by
  have hfile {path : Option Path} (hpath : Overlay.ofFile? fs path = .error e) :
      ∃ reason, e = .configuration reason := by
    obtain ⟨reason, -, he⟩ := ((Overlay.ofFile?_iff _ _).2 e).1 hpath
    exact ⟨reason, he⟩
  rcases bind_eq_error_iff.1 h with hshared | ⟨shared, -, h⟩
  · exact hfile hshared
  rcases bind_eq_error_iff.1 h with hown | ⟨own, -, h⟩
  · exact hfile hown
  rcases bind_eq_error_iff.1 h with hgiven | ⟨given, -, h⟩
  · rcases bind_eq_error_iff.1 hgiven with hroot | ⟨rootParentId, -, hgiven⟩
    · exact ofVariable_eq_error hroot
    rcases bind_eq_error_iff.1 hgiven with hindent | ⟨indent, -, hgiven⟩
    · exact ofVariable_eq_error hindent
    rcases bind_eq_error_iff.1 hgiven with hformat | ⟨format, -, hgiven⟩
    · exact ofVariable_eq_error hformat
    · cases hgiven
  · cases h

/-- Each setting is taken from the uppermost layer that chooses it. -/
theorem overlay_overlay_overlay (s : Settings) (shared own given : Overlay) :
    ((s.overlay shared).overlay own).overlay given =
      { rootParentId :=
          ((given.rootParentId.or own.rootParentId).or shared.rootParentId).getD s.rootParentId
        indent := ((given.indent.or own.indent).or shared.indent).getD s.indent
        defaultFormat :=
          ((given.defaultFormat.or own.defaultFormat).or shared.defaultFormat).getD s.defaultFormat } := by
  simp only [overlay, Option.getD_or]

/-- Settings are loaded exactly if no layer fails: every file that is there can be read and understood,
and so can every variable that is set. Each setting is then taken, by itself, from the variable, else
from the file of the working directory, else from the file of the user, else from the defaults.
Otherwise the first layer that fails tells the error, even if a later one chooses the same setting. -/
theorem load_layers (fs : FileSystem) (env : Environment) (dir : Option Path) (h : env.Plain) :
    ((∃ s, load fs env dir = .ok s) ↔
      ∀ (layer : Layer) (reason : String), ¬ layer.Fails fs env dir reason) ∧
    (∀ s, load fs env dir = .ok s ↔ ∃ shared own given, Layer.Choose fs env dir shared own given ∧
      s.rootParentId = ((given.rootParentId.or own.rootParentId).or shared.rootParentId).getD 0 ∧
      s.indent = ((given.indent.or own.indent).or shared.indent).getD 2 ∧
      s.defaultFormat =
        ((given.defaultFormat.or own.defaultFormat).or shared.defaultFormat).getD .json) ∧
    ∀ e, load fs env dir = .error e ↔
      FirstFailing (Layer.FailsWith fs env dir) Layer.order e := by
  refine ⟨?_, fun s => ?_, fun e => load_eq_error_iff h⟩
  · constructor
    · rintro ⟨s, hs⟩ layer reason hfails
      obtain ⟨e, he⟩ : ∃ e, FirstFailing (Layer.FailsWith fs env dir) Layer.order e :=
        exists_firstFailing_iff.2 ⟨layer, layer.mem_order, _, reason, hfails, rfl⟩
      cases hs.symm.trans ((load_eq_error_iff h).2 he)
    · intro hno
      cases hload : load fs env dir with
      | ok s => exact ⟨s, rfl⟩
      | error e =>
        obtain ⟨layer, -, reason, hfails, -⟩ := (load_eq_error_iff h).1 hload
        exact absurd hfails (hno layer reason)
  · cases s
    simp only [load_eq_ok_iff h, overlay_overlay_overlay, Settings.mk.injEq]

/-- The files of the user and of the working directory. -/
def exFiles (shared own : String) : FileSystem :=
  .ofEntries [(⟨"/home/u/.config/replytree/replytree.toml"⟩, .file (.ok shared)),
    (⟨"/work/.replytree.toml"⟩, .file (.ok own))]

def exChosen : Environment :=
  .ofBindings [("HOME", "/home/u"), ("ReplyTree_Indent", " +5 "), ("REPLYTREE_DEFAULT_FORMAT", " Toml ")]

def exRefused : Environment :=
  .ofBindings [("HOME", "/home/u"), ("ReplyTree_Indent", "-1"), ("REPLYTREE_DEFAULT_FORMAT", "yaml")]

def exUnknown : Environment :=
  .ofBindings [("HOME", "/home/u"), ("REPLYTREE_DEFAULT_FORMAT", " yaml")]

/-- The indentation is chosen three times, and the format by a variable. Then neither the file of the
working directory nor the variables can be understood, and at last only the format cannot. -/
theorem load_layers_of_files :
    exChosen.Plain ∧ exRefused.Plain ∧ exUnknown.Plain ∧
    load (exFiles "root_parent_id = 7\nindent = 4" "indent = 3") exChosen (some ⟨"/work"⟩) =
      .ok ⟨7, 5, .toml⟩ ∧
    load (exFiles "indent = 4" "indent = x") exRefused (some ⟨"/work"⟩) =
      .error (.configuration "parse /work/.replytree.toml: TOML parse error") ∧
    load (exFiles "indent = 4" "indent = 3") exUnknown (some ⟨"/work"⟩) =
      .error (.configuration "REPLYTREE_DEFAULT_FORMAT: unknown input format: yaml") := by
  have hplain : ∀ env ∈ [exChosen, exRefused, exUnknown], env.Plain := by decide +kernel
  have hglobal : ∀ env ∈ [exChosen, exRefused, exUnknown],
      globalPath? env = some ⟨"/home/u/.config/replytree/replytree.toml"⟩ := by
    decide +kernel
  simp only [List.forall_mem_cons] at hplain hglobal
  obtain ⟨hchosen, hrefused, hunknown, -⟩ := hplain
  have hlocal : (some (⟨"/work"⟩ : Path)).map localPath = some ⟨"/work/.replytree.toml"⟩ := by
    decide +kernel
  refine ⟨hchosen, hrefused, hunknown, ?_, ?_, ?_⟩
  · refine ((load_layers _ _ _ hchosen).2.1 _).2
      ⟨⟨some 7, some 4, none⟩, ⟨none, some 3, none⟩, ⟨none, some 5, some .toml⟩, ⟨?_, ?_, ?_, ?_, ?_⟩,
        rfl, rfl, rfl⟩
    · rw [hglobal.1]
      exact .read rfl (by decide +kernel)
    · rw [hlocal]
      exact .read rfl (by decide +kernel)
    · exact .unset (Environment.settingVariable?_eq_none_iff.1 (by decide +kernel))
    · exact .set ⟨("ReplyTree_Indent", " +5 "), by decide +kernel, by decide +kernel, rfl⟩
        (((readWord_iff _).1 _).1 (Workspace.eq_ok_of_toOption (by decide +kernel)))
    · exact .set ⟨("REPLYTREE_DEFAULT_FORMAT", " Toml "), by decide +kernel, by decide +kernel, rfl⟩
        (by decide +kernel)
  · have hshared : Overlay.FromFile (exFiles "indent = 4" "indent = x") (globalPath? exRefused)
        ⟨none, some 4, none⟩ := by
      rw [hglobal.2.1]
      exact .read rfl (by decide +kernel)
    have hown : Layer.FailsWith (exFiles "indent = 4" "indent = x") exRefused (some ⟨"/work"⟩) .own
        (.configuration "parse /work/.replytree.toml: TOML parse error") := by
      have hread : (exFiles "indent = 4" "indent = x").read ⟨"/work/.replytree.toml"⟩ =
          .ok "indent = x" := rfl
      refine ⟨_, ?_, rfl⟩
      rw [Layer.Fails, hlocal]
      exact .unparsable hread (by decide +kernel)
    refine ((load_layers _ _ _ hrefused).2.2 _).2 ⟨.own, ⟨[.shared], _, rfl, ?_, _, hown⟩, hown⟩
    rintro layer hlayer ⟨e, reason, hfails, -⟩
    obtain rfl := List.mem_singleton.1 hlayer
    exact hshared.not_fileFails hfails
  · have hshared : Overlay.FromFile (exFiles "indent = 4" "indent = 3") (globalPath? exUnknown)
        ⟨none, some 4, none⟩ := by
      rw [hglobal.2.2.1]
      exact .read rfl (by decide +kernel)
    have hown : Overlay.FromFile (exFiles "indent = 4" "indent = 3")
        ((some (⟨"/work"⟩ : Path)).map localPath) ⟨none, some 3, none⟩ := by
      rw [hlocal]
      exact .read rfl (by decide +kernel)
    have hunset : ∀ setting ∈ ["root_parent_id", "indent"], ∀ value, ¬ exUnknown.Gives setting value := by
      simp only [← Environment.settingVariable?_eq_none_iff]
      decide +kernel
    have hformat : Layer.FailsWith (exFiles "indent = 4" "indent = 3") exUnknown (some ⟨"/work"⟩)
        .defaultFormat
        (.configuration "REPLYTREE_DEFAULT_FORMAT: unknown input format: yaml") := by
      have hgives : exUnknown.Gives "default_format" " yaml" :=
        ⟨("REPLYTREE_DEFAULT_FORMAT", " yaml"), by decide +kernel, by decide +kernel, rfl⟩
      have hunnamed : Format.Unnamed (Text.trim " yaml") "unknown input format: yaml" :=
        ⟨Format.ofExtension?_eq_none_iff.1 (by decide +kernel), by decide +kernel⟩
      exact ⟨_, .unreadable hgives hunnamed, by decide +kernel⟩
    refine ((load_layers _ _ _ hunknown).2.2 _).2
      ⟨.defaultFormat, ⟨[.shared, .own, .rootParentId, .indent], [], rfl, ?_, _, hformat⟩, hformat⟩
    rintro layer hlayer ⟨e, reason, hfails, -⟩
    simp only [List.mem_cons, List.not_mem_nil, or_false] at hlayer
    rcases hlayer with rfl | rfl | rfl | rfl
    · exact hshared.not_fileFails hfails
    · exact hown.not_fileFails hfails
    · exact not_variableFails (hunset _ (by simp)) hfails
    · exact not_variableFails (hunset _ (by simp)) hfails

end Settings

end Discussion
