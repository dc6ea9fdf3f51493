import Discussion.Workspace

/-!
# What a file holds

A workspace goes from a path to a forest in stages, each of which may fail. Here the stages are taken
apart.

* `Workspace.Holds w path ps`: the file at the path can be read, and `ps` are its posts as they are
  written there.

Results:
1. `Workspace.load_eq_ok_iff`: the posts that are loaded are those that the file holds, without the
   parents that stand for none.
2. `Workspace.build_of_load`, `Workspace.stats_of_load`: after loading only the list of posts counts.
-/

namespace Discussion.Workspace

theorem bind_eq_ok_iff {ε α β : Type} {x : Except ε α} {g : α → Except ε β} {b : β} :
    (x >>= g) = .ok b ↔ ∃ a, x = .ok a ∧ g a = .ok b := by
  cases x with
  | error e => exact ⟨nofun, fun ⟨_, h, _⟩ => nomatch h⟩
  | ok a => exact ⟨fun h => ⟨a, rfl, h⟩, fun ⟨_, ha, h⟩ => Except.ok.inj ha ▸ h⟩

theorem bind_eq_error_iff {ε α β : Type} {x : Except ε α} {g : α → Except ε β} {e : ε} :
    (x >>= g) = .error e ↔ x = .error e ∨ ∃ a, x = .ok a ∧ g a = .error e := by
  cases x with
  | error e' => exact ⟨fun h => .inl (congrArg _ (Except.error.inj h)),
      fun h => h.elim (fun h => congrArg _ (Except.error.inj h)) fun ⟨_, h, _⟩ => nomatch h⟩
  | ok a => exact ⟨fun h => .inr ⟨a, rfl, h⟩,
      fun h => h.elim nofun fun ⟨_, ha, h⟩ => Except.ok.inj ha ▸ h⟩

/-- What is known of every outcome is known of the outcome. -/
theorem eq_iff_of_total {ε α : Type} {x : Except ε α} {P : α → Prop} {Q : ε → Prop}
    (total : (∃ a, P a) ∨ ∃ e, Q e) (hok : ∀ a, P a → x = .ok a) (herror : ∀ e, Q e → x = .error e) :
    (∀ a, x = .ok a ↔ P a) ∧ ∀ e, x = .error e ↔ Q e := by
  rcases total with ⟨a, ha⟩ | ⟨e, he⟩
  · have hx := hok a ha
    refine ⟨fun b => ⟨fun hb => ?_, hok b⟩, fun e => ⟨fun he => ?_, herror e⟩⟩
    · cases hx.symm.trans hb
      exact ha
    · cases hx.symm.trans he
  · have hx := herror e he
    refine ⟨fun a => ⟨fun ha => ?_, hok a⟩, fun e' => ⟨fun he' => ?_, herror e'⟩⟩
    · cases hx.symm.trans ha
    · cases hx.symm.trans he'
      exact he

theorem eq_ok_of_toOption {ε α : Type} {x : Except ε α} {a : α} (h : x.toOption = some a) :
    x = .ok a := by
  cases x with
  | error e => cases h
  | ok b => exact congrArg _ (Option.some.inj h)

/-- The file at a path can be read, and holds these posts as they are written there. -/
def Holds (w : Workspace) (path : Path) (ps : List Post) : Prop :=
  ∃ format text doc, w.formatOf (w.resolve path) = .ok format ∧
    w.readText (w.resolve path) = .ok text ∧
    parse (w.resolve path) format text = .ok doc ∧ doc.posts = ps

variable {w : Workspace} {path : Path} {ps : List Post}

theorem load_eq_ok_iff : w.load path = .ok ps ↔
    ∃ written, w.Holds path written ∧
      written.map (Post.normalize w.settings.rootParentId) = ps := by
  unfold load
  constructor
  · intro h
    obtain ⟨format, hformat, h⟩ := bind_eq_ok_iff.1 h
    obtain ⟨text, htext, h⟩ := bind_eq_ok_iff.1 h
    obtain ⟨doc, hdoc, h⟩ := bind_eq_ok_iff.1 h
    exact ⟨doc.posts, ⟨format, text, doc, hformat, htext, hdoc, rfl⟩, Except.ok.inj h⟩
  · rintro ⟨_, ⟨format, text, doc, hformat, htext, hdoc, rfl⟩, rfl⟩
    exact bind_eq_ok_iff.2 ⟨format, hformat,
      bind_eq_ok_iff.2 ⟨text, htext, bind_eq_ok_iff.2 ⟨doc, hdoc, rfl⟩⟩⟩

theorem build_of_load (h : w.load path = .ok ps) : w.build path = thread ps := by
  rw [build, h]
  rfl

theorem stats_eq (w : Workspace) (path : Path) : w.stats path = (w.build path).map Forest.stats := by
  unfold stats
  cases w.build path <;> rfl

theorem stats_of_load (h : w.load path = .ok ps) :
    w.stats path = (thread ps).map Forest.stats := by
  rw [stats_eq, build_of_load h]

theorem thread_ok {f : Forest Post} (h : Forest.thread ps = .ok f) : thread ps = .ok f := by
  rw [thread, h]

theorem thread_error {e : ThreadingError UInt64} (h : Forest.thread ps = .error e) :
    thread ps = .error (.threading e.inspected) := by
  rw [thread, h]

end Discussion.Workspace
