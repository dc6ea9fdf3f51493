import Mathlib.Data.List.Forall2
import Discussion.Data.Basic

/-!
# Taking data apart

What the ways to take data apart accept, said without them.

* `Sole names ms d`: exactly one member of `ms` has one of the names, and its value is `d`.
* `Lacks names ms`: no member has one of the names.
* `AtMostOne`, `Nullable`: members that may be missing, and values that may be null.

Results: `required?_eq_some_iff`, `optional?_eq_some_iff`, `nullable?_eq_some_iff`, `mapM_eq_some_iff`,
`mapM_eq_none_iff`, `natural?_eq_some_iff`, `text?_eq_some_iff`.
-/

namespace Discussion

universe u

variable {α β : Type u}

namespace Data

/-- No member has one of the names. -/
def Lacks (names : List String) (ms : List (String × Data)) : Prop :=
  ∀ m ∈ ms, m.1 ∉ names

/-- Exactly one member has one of the names, and its value is `d`. -/
def Sole (names : List String) (ms : List (String × Data)) (d : Data) : Prop :=
  ∃ before name after, ms = before ++ (name, d) :: after ∧ name ∈ names ∧
    Lacks names before ∧ Lacks names after

/-- At most one member has one of the names; `reads` relates its value to `a`, and without such a
member `a` is `missing`. -/
def AtMostOne (names : List String) (ms : List (String × Data)) (reads : Data → α → Prop)
    (missing a : α) : Prop :=
  Lacks names ms ∧ a = missing ∨ ∃ d, Sole names ms d ∧ reads d a

/-- Null stands for nothing, and any other value for what `reads` relates it to. -/
def Nullable (reads : Data → α → Prop) (d : Data) (x : Option α) : Prop :=
  d = .null ∧ x = none ∨ ∃ a, reads d a ∧ x = some a

/-- The integer `n`. -/
def IsNumber (d : Data) (n : UInt64) : Prop :=
  d = .integer n.toNat

/-- The text `t`. -/
def IsText (d : Data) (t : String) : Prop :=
  d = .text t

variable {names : List String} {ms : List (String × Data)} {d : Data}

theorem valuesOf_eq_nil_iff : valuesOf names ms = [] ↔ Lacks names ms := by
  simp [valuesOf, Lacks]

theorem valuesOf_eq_singleton_iff : valuesOf names ms = [d] ↔ Sole names ms d := by
  have hlacks (l : List (String × Data)) : (∀ m ∈ l, ¬names.contains m.1) ↔ Lacks names l := by
    simp [Lacks]
  rw [valuesOf, List.map_eq_singleton_iff]
  constructor
  · rintro ⟨⟨name, e⟩, hfilter, rfl⟩
    obtain ⟨before, after, rfl, hbefore, hname, hafter⟩ := List.filter_eq_cons_iff.1 hfilter
    exact ⟨before, name, after, rfl, List.contains_iff_mem.1 hname, (hlacks _).1 hbefore,
      (hlacks _).1 (List.filter_eq_nil_iff.1 hafter)⟩
  · rintro ⟨before, name, after, rfl, hname, hbefore, hafter⟩
    refine ⟨(name, d), List.filter_eq_cons_iff.2 ?_, rfl⟩
    exact ⟨before, after, rfl, (hlacks _).2 hbefore, List.contains_iff_mem.2 hname,
      List.filter_eq_nil_iff.2 ((hlacks _).2 hafter)⟩

theorem atMostOne_of_valuesOf {reads : Data → α → Prop} {missing a : α} {o : Option Data}
    (hvalues : valuesOf names ms = o.toList)
    (h : o = none ∧ a = missing ∨ ∃ d, o = some d ∧ reads d a) :
    AtMostOne names ms reads missing a := by
  rcases h with ⟨rfl, ha⟩ | ⟨d, rfl, hd⟩
  · exact .inl ⟨valuesOf_eq_nil_iff.1 hvalues, ha⟩
  · exact .inr ⟨d, valuesOf_eq_singleton_iff.1 hvalues, hd⟩

theorem required?_eq_some_iff {read : Data → Option α} {a : α} :
    required? names read ms = some a ↔ ∃ d, Sole names ms d ∧ read d = some a := by
  unfold required?
  split
  · next e hvalues =>
    refine ⟨fun h => ⟨e, valuesOf_eq_singleton_iff.1 hvalues, h⟩, ?_⟩
    rintro ⟨d, hd, h⟩
    obtain rfl : e = d := by
      rw [valuesOf_eq_singleton_iff.2 hd] at hvalues
      exact (List.singleton_inj.1 hvalues).symm
    exact h
  · next hvalues =>
    refine ⟨nofun, ?_⟩
    rintro ⟨d, hd, -⟩
    exact absurd (valuesOf_eq_singleton_iff.2 hd) (hvalues d)

theorem optional?_eq_some_iff {read : Data → Option α} {reads : Data → α → Prop}
    (hread : ∀ d a, read d = some a ↔ reads d a) {missing a : α} :
    optional? names read missing ms = some a ↔ AtMostOne names ms reads missing a := by
  have hrequired : required? names read ms = some a ↔ ∃ d, Sole names ms d ∧ read d = some a :=
    required?_eq_some_iff
  simp only [hread] at hrequired
  unfold optional?
  unfold required? at hrequired
  rw [AtMostOne, ← valuesOf_eq_nil_iff]
  split
  · next hvalues =>
    simp only [hvalues] at hrequired ⊢
    rw [← hrequired]
    simp [eq_comm]
  · next hvalues =>
    simp only [hvalues] at hrequired ⊢
    rw [← hrequired]
    simp
  · next hnil hsole =>
    refine ⟨nofun, ?_⟩
    rintro (⟨h, -⟩ | ⟨d, hd, -⟩)
    · exact absurd h hnil
    · exact absurd (valuesOf_eq_singleton_iff.2 hd) (hsole d)

theorem nullable?_eq_some_iff {read : Data → Option α} {reads : Data → α → Prop}
    (hread : ∀ d a, read d = some a ↔ reads d a) (hnull : ∀ a, ¬reads .null a) {x : Option α} :
    nullable? read d = some x ↔ Nullable reads d x := by
  unfold nullable? Nullable
  split
  · simp [hnull, eq_comm]
  · next hd =>
    have hd : d ≠ .null := hd
    simp [hd, hread, eq_comm]

theorem forall₂_map_self {reads : β → α → Prop} {write : α → β} {as : List α}
    (h : ∀ a ∈ as, reads (write a) a) : List.Forall₂ reads (as.map write) as :=
  List.forall₂_map_left_iff.2 (List.forall₂_same.2 h)

theorem mapM_eq_some_iff {read : α → Option β} {as : List α} {bs : List β} :
    as.mapM read = some bs ↔ List.Forall₂ (fun a b => read a = some b) as bs := by
  induction as generalizing bs with
  | nil => simp [eq_comm]
  | cons a as ih =>
    simp only [List.mapM_cons, Option.bind_eq_bind, Option.pure_def, Option.bind_eq_some_iff,
      Option.some.injEq, List.forall₂_cons_left_iff, ih]
    constructor
    · rintro ⟨b, hb, bs, hbs, rfl⟩
      exact ⟨b, bs, hb, hbs, rfl⟩
    · rintro ⟨b, bs, hb, hbs, rfl⟩
      exact ⟨b, hb, bs, hbs, rfl⟩

theorem mapM_eq_none_iff {read : α → Option β} {as : List α} :
    as.mapM read = none ↔ ∃ a ∈ as, read a = none := by
  induction as with
  | nil => simp
  | cons a as ih =>
    rw [List.mapM_cons, List.exists_mem_cons_iff, ← ih]
    cases ha : read a with
    | none => simp
    | some b => cases has : as.mapM read <;> simp

theorem natural?_eq_some_iff (d : Data) (n : UInt64) : d.natural? = some n ↔ IsNumber d n := by
  unfold natural? IsNumber
  split
  · next z =>
    constructor
    · intro h
      split at h
      · next hz =>
        cases h
        obtain ⟨k, rfl⟩ := Int.eq_ofNat_of_zero_le hz.1
        rw [Int.toNat_natCast, UInt64.toNat_ofNat_of_lt' (Int.ofNat_lt.1 hz.2)]
      · cases h
    · intro h
      obtain rfl := integer.inj h
      rw [if_pos ⟨Int.natCast_nonneg _, Int.ofNat_lt.2 n.toNat_lt_size⟩, Int.toNat_natCast,
        UInt64.ofNat_toNat]
  · next hd => exact ⟨nofun, fun h => absurd h (hd _)⟩

theorem text?_eq_some_iff (d : Data) (t : String) : d.text? = some t ↔ IsText d t := by
  unfold text? IsText
  split
  · simp
  · next hd => exact ⟨nofun, fun h => absurd h (hd _)⟩

end Data

end Discussion
