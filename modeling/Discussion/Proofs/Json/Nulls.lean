import Discussion.Json.Shaped

/-!
# Shapes that allow null

A shape that allows no null is changed so that each of its values may be null. It then takes the texts
that it took before, with the same values, and besides them only texts in which one of its values is
null.

* `Slot.orNull`, `Shape.orNull`: the value, or any value of the shape, may also be null.
* `Data.NoNulls ms`: the members all have other values than null.
* `Fields slots isFirst found s ms r`: the text `s` goes on with members of the slots up to the end of a
  record, `ms` are all its members, and `r` is behind it.

Results:
1. `Slot.read_orNull_eq_null_iff`: null is read only where it is written.
2. `readFields_eq_ok_iff`: what `readFields` returns, by the steps that it takes.
3. `Shape.read_eq_ok_iff_orNull`: the texts that a shape takes are those that it takes without nulls when
   nulls are allowed.
-/

namespace Discussion

/-- No member has the value null. -/
def Data.NoNulls (ms : List (String × Data)) : Prop :=
  ∀ m ∈ ms, m.2 ≠ .null

theorem Data.noNulls_cons {m : String × Data} {ms : List (String × Data)} :
    NoNulls (m :: ms) ↔ m.2 ≠ .null ∧ NoNulls ms :=
  List.forall_mem_cons

namespace Json

open Data (NoNulls noNulls_cons)

/-! ## One value -/

section Values

variable {k : Kind} {c : Char} {s r : List Char} {d e : Data}

theorem readConstant_eq_ok_iff {w : List Char} :
    readConstant w d s = .ok (e, r) ↔ readWord w s = .ok r ∧ e = d := by
  unfold readConstant
  cases readWord w s <;> simp [eq_comm, and_comm]

theorem lift_eq_ok_iff {α : Type} {x : Except Failure α} {a : α} :
    Problem.lift x = .ok a ↔ x = .ok a := by
  cases x <;> simp [Problem.lift]

/-- A value that begins like null can only be null. -/
theorem glimpse_n (s : List Char) : glimpse 'n' s = readConstant ['u', 'l', 'l'] .null s :=
  rfl

/-- A value of a kind is not null. -/
theorem Kind.check_ne_null (h : k.check d = .ok e) : e ≠ .null := by
  rintro rfl
  unfold Kind.check at h
  split at h
  · split at h <;> cases h
  · cases h
  · cases h
  · cases h
  · split at h <;> cases h
  · cases h

theorem Kind.check_null (k : Kind) : ∃ m, k.check .null = .error m := by
  cases k <;> exact ⟨_, rfl⟩

theorem readChecked_ne_null (h : readChecked k c s = .ok (d, r)) : d ≠ .null := by
  unfold readChecked at h
  split at h
  · cases h
  · split at h
    · cases h
    · next hcheck =>
      cases h
      exact k.check_ne_null hcheck

theorem readChoice_ne_null {words : List String} (h : readChoice words s = .ok (d, r)) :
    d ≠ .null := by
  unfold readChoice at h
  split at h
  · cases h
  · exact readChecked_ne_null h

theorem readTagged_ne_null {words : List String} (h : readTagged words s = .ok (d, r)) :
    d ≠ .null := by
  unfold readTagged at h
  split at h
  · cases h
  · next hchoice =>
    -- what follows the word does not change it
    split at h
    · cases h
    · split at h
      · cases h
      · split at h
        · cases h
        · cases h
          exact readChoice_ne_null hchoice

theorem Kind.read_ne_null (h : k.read c s = .ok (d, r)) : d ≠ .null := by
  unfold Kind.read at h
  split at h
  · split at h
    · exact readChecked_ne_null h
    · split at h
      · exact readTagged_ne_null h
      · cases h
  · exact readChecked_ne_null h

theorem readChecked_n_ne_ok (k : Kind) (s : List Char) : readChecked k 'n' s ≠ .ok (d, r) := by
  intro h
  unfold readChecked at h
  split at h
  · cases h
  · next hglimpse =>
    rw [glimpse_n] at hglimpse
    rw [(readConstant_eq_ok_iff.1 hglimpse).2] at h
    obtain ⟨m, hm⟩ := k.check_null
    rw [hm] at h
    cases h

theorem Kind.read_n_ne_ok (k : Kind) (s : List Char) : k.read 'n' s ≠ .ok (d, r) := by
  intro h
  unfold Kind.read at h
  split at h
  · rw [if_neg (by decide), if_neg (by decide)] at h
    cases h
  · exact readChecked_n_ne_ok _ s h

/-- The value may also be null. -/
def Slot.orNull (slot : Slot) : Slot :=
  { slot with nullable := true }

variable {slot : Slot}

theorem Slot.read_orNull_eq_null_iff :
    slot.orNull.read s = .ok (.null, r) ↔
      ∃ t, skipSpace s = 'n' :: t ∧ readWord ['u', 'l', 'l'] t = .ok r := by
  unfold Slot.read
  split
  · next hs => simp [hs]
  · next c t hs =>
    rw [hs]
    by_cases hc : c = 'n'
    · rw [if_pos ⟨rfl, hc⟩, lift_eq_ok_iff, readConstant_eq_ok_iff]
      simp [hc]
    · rw [if_neg (not_and_of_not_right _ hc)]
      constructor
      · intro h
        exact absurd rfl (Kind.read_ne_null h)
      · rintro ⟨u, hu, -⟩
        exact absurd (List.cons.inj hu).1 hc

/-- What is read as another value than null is read so, whether the value may be null or not. -/
theorem Slot.read_eq_ok_iff_orNull (strict : slot.nullable = false) :
    slot.read s = .ok (d, r) ↔ slot.orNull.read s = .ok (d, r) ∧ d ≠ .null := by
  have hkind : slot.orNull.kind = slot.kind := rfl
  unfold Slot.read
  rw [strict, hkind]
  split
  · simp
  · next c t _ =>
    rw [if_neg (not_and_of_not_left _ Bool.false_ne_true)]
    by_cases hc : c = 'n'
    · rw [if_pos ⟨rfl, hc⟩, lift_eq_ok_iff, readConstant_eq_ok_iff, hc]
      exact ⟨fun h => absurd h (slot.kind.read_n_ne_ok t), fun h => absurd h.1.2 h.2⟩
    · rw [if_neg (not_and_of_not_right _ hc)]
      exact (and_iff_left_of_imp Kind.read_ne_null).symm

end Values

/-! ## Lists of values -/

section Records

variable {slots : List Slot} {isFirst : Bool} {found ms : List (String × Data)} {name : String}
  {s r : List Char}

/-- None of the values may be null. -/
def Strict (slots : List Slot) : Prop :=
  ∀ slot ∈ slots, slot.nullable = false

theorem readSlots_eq_ok_iff_of_more {shape : Shape} {slot : Slot} {t : List Char}
    (h : nextItem isFirst s = .ok (.more t)) :
    readSlots shape isFirst (slot :: slots) s = .ok (ms, r) ↔
      ∃ d u ms', slot.read t = .ok (d, u) ∧ readSlots shape false slots u = .ok (ms', r) ∧
        ms = (slot.name, d) :: ms' := by
  constructor
  · intro hms
    simp only [readSlots, h] at hms
    split at hms
    · cases hms
    · next d u hread =>
      split at hms
      · cases hms
      · next ms' _ hrest =>
        cases hms
        exact ⟨d, u, ms', hread, hrest, rfl⟩
  · rintro ⟨d, u, ms', hread, hrest, rfl⟩
    simp only [readSlots, h, hread, hrest]

theorem readSlots_eq_ok_iff_of_done {shape : Shape} {slot : Slot} {t : List Char}
    (h : nextItem isFirst s = .ok (.done t)) :
    readSlots shape isFirst (slot :: slots) s = .ok (ms, r) ↔
      slot.required = false ∧ ms = [] ∧ r = t := by
  simp only [readSlots, h]
  cases slot.required <;> simp [eq_comm]

theorem readSlots_nil_eq_nil {shape : Shape} (h : readSlots shape isFirst [] s = .ok (ms, r)) :
    ms = [] := by
  rw [readSlots] at h
  split at h <;> cases h
  rfl

/-- The values are those of the slots in their order, from the first. -/
theorem readSlots_isPrefix {shape : Shape} (h : readSlots shape isFirst slots s = .ok (ms, r)) :
    ms.map Prod.fst <+: slots.map Slot.name := by
  induction slots generalizing isFirst s ms with
  | nil =>
    rw [readSlots_nil_eq_nil h]
    exact List.nil_prefix
  | cons slot slots ih =>
    cases hnext : nextItem isFirst s with
    | error f => simp [readSlots, hnext] at h
    | ok next =>
      cases next with
      | done t =>
        rw [((readSlots_eq_ok_iff_of_done hnext).1 h).2.1]
        exact List.nil_prefix
      | more t =>
        obtain ⟨d, u, ms', _, hrest, rfl⟩ := (readSlots_eq_ok_iff_of_more hnext).1 h
        exact List.prefix_cons_inj _ |>.2 (ih hrest)

theorem readSlots_eq_ok_iff_orNull (shape shape' : Shape) (strict : Strict slots) :
    readSlots shape isFirst slots s = .ok (ms, r) ↔
      readSlots shape' isFirst (slots.map Slot.orNull) s = .ok (ms, r) ∧ NoNulls ms := by
  induction slots generalizing isFirst s ms with
  | nil =>
    refine (and_iff_left_of_imp fun h => ?_).symm
    rw [readSlots_nil_eq_nil h]
    exact nofun
  | cons slot slots ih =>
    obtain ⟨hslot, hslots⟩ := List.forall_mem_cons.1 strict
    rw [List.map_cons]
    cases hnext : nextItem isFirst s with
    | error f => simp [readSlots, hnext]
    | ok next =>
      cases next with
      | done t =>
        rw [readSlots_eq_ok_iff_of_done hnext, readSlots_eq_ok_iff_of_done hnext]
        refine (and_iff_left_of_imp ?_).symm
        rintro ⟨-, rfl, -⟩
        exact nofun
      | more t =>
        rw [readSlots_eq_ok_iff_of_more hnext, readSlots_eq_ok_iff_of_more hnext]
        constructor
        · rintro ⟨d, u, ms', hread, hrest, rfl⟩
          obtain ⟨hread, hd⟩ := (Slot.read_eq_ok_iff_orNull hslot).1 hread
          obtain ⟨hrest, hms⟩ := (ih hslots).1 hrest
          exact ⟨⟨d, u, ms', hread, hrest, rfl⟩, noNulls_cons.2 ⟨hd, hms⟩⟩
        · rintro ⟨⟨d, u, ms', hread, hrest, rfl⟩, hms⟩
          obtain ⟨hd, hms⟩ := noNulls_cons.1 hms
          exact ⟨d, u, ms', (Slot.read_eq_ok_iff_orNull hslot).2 ⟨hread, hd⟩,
            (ih hslots).2 ⟨hrest, hms⟩, rfl⟩

/-! ## Members with names -/

/-- Behind a name stands a value that is passed over, or the value of a slot. -/
theorem readMember_eq_ok_iff : readMember slots found name s = .ok (ms, r) ↔
    (slots.find? (·.accepts name) = none ∧ ms = found ∧
      ∃ t, readColon s = .ok t ∧ skip t = .ok r) ∨
    ∃ slot, slots.find? (·.accepts name) = some slot ∧ found.any (·.1 == slot.name) = false ∧
      ∃ t d, readColon s = .ok t ∧ slot.read t = .ok (d, r) ∧ ms = (slot.name, d) :: found := by
  constructor
  · intro h
    unfold readMember at h
    split at h
    · next hfind =>
      split at h
      · cases h
      · next t hcolon =>
        split at h
        · cases h
        · next hskip =>
          cases h
          exact .inl ⟨hfind, rfl, t, hcolon, hskip⟩
    · next slot hfind =>
      split at h
      · cases h
      · next hfresh =>
        split at h
        · cases h
        · next t hcolon =>
          split at h
          · cases h
          · next d _ hread =>
            cases h
            exact .inr ⟨slot, hfind, Bool.not_eq_true _ ▸ hfresh, t, d, hcolon, hread, rfl⟩
  · rintro (⟨hfind, rfl, t, hcolon, hskip⟩ | ⟨slot, hfind, hfresh, t, d, hcolon, hread, rfl⟩)
    · simp only [readMember, hfind, hcolon, hskip]
    · simp only [readMember, hfind, hfresh, hcolon, hread]
      rfl

/-- The text goes on with members of the slots, up to the end of a record. -/
inductive Fields (slots : List Slot) : Bool → List (String × Data) → List Char →
    List (String × Data) → List Char → Prop
  | done {isFirst : Bool} {found : List (String × Data)} {s r : List Char} :
    nextMember isFirst s = .ok (.done r) →
    (∀ slot ∈ slots, slot.required → found.any (·.1 == slot.name)) →
    Fields slots isFirst found s found.reverse r
  | more {isFirst : Bool} {found found' ms : List (String × Data)} {name : String}
      {s t u v r : List Char} :
    nextMember isFirst s = .ok (.more t) → readText t = .ok (name, u) →
    readMember slots found name u = .ok (found', v) → Fields slots false found' v ms r →
    Fields slots isFirst found s ms r

theorem readFields_eq_ok_iff : readFields slots isFirst found s = .ok (ms, r) ↔
    Fields slots isFirst found s ms r := by
  constructor
  · intro h
    fun_induction readFields slots isFirst found s with
    | case1 => cases h
    | case2 => cases h
    | case3 isFirst found s r' hnext hfind =>
      cases h
      refine .done hnext ?_
      simpa using hfind
    | case4 => cases h
    | case5 => cases h
    | case6 isFirst found s t hnext name u hname found' v hmember ih =>
      exact .more hnext hname hmember (ih h)
  · intro h
    induction h with
    | @done isFirst found s r hnext hall =>
      have hfind : (slots.find? fun slot =>
          slot.required && !found.any (·.1 == slot.name)) = none := by
        simpa using hall
      rw [readFields]
      split
      · next h => cases hnext.symm.trans h
      · next h =>
        cases hnext.symm.trans h
        rw [hfind]
      · next h => cases hnext.symm.trans h
    | more hnext hname hmember _ ih =>
      rw [readFields]
      split
      · next h => cases hnext.symm.trans h
      · next h => cases hnext.symm.trans h
      · next h =>
        cases hnext.symm.trans h
        split
        · next h => cases hname.symm.trans h
        · next h =>
          cases hname.symm.trans h
          split
          · next h => cases hmember.symm.trans h
          · next h =>
            cases hmember.symm.trans h
            exact ih

theorem Fields.subset (h : Fields slots isFirst found s ms r) : found ⊆ ms := by
  induction h with
  | done => exact fun _ => List.mem_reverse.2
  | more _ _ hmember _ ih =>
    rcases readMember_eq_ok_iff.1 hmember with ⟨_, rfl, _⟩ | ⟨_, _, _, _, _, _, _, rfl⟩
    · exact ih
    · exact fun _ hm => ih (List.mem_cons_of_mem _ hm)

/-- Only the slots give names to members. -/
theorem Fields.names (h : Fields slots isFirst found s ms r)
    (hfound : ∀ m ∈ found, m.1 ∈ slots.map Slot.name) : ∀ m ∈ ms, m.1 ∈ slots.map Slot.name := by
  induction h with
  | done => exact fun m hm => hfound m (List.mem_reverse.1 hm)
  | more _ _ hmember _ ih =>
    rcases readMember_eq_ok_iff.1 hmember with ⟨_, rfl, _⟩ | ⟨slot, hfind, _, _, _, _, _, rfl⟩
    · exact ih hfound
    · have hname := List.mem_map_of_mem (f := Slot.name) (List.mem_of_find?_eq_some hfind)
      exact ih (List.forall_mem_cons.2 ⟨hname, hfound⟩)

theorem find?_accepts_orNull (slots : List Slot) (name : String) :
    (slots.map Slot.orNull).find? (·.accepts name) =
      (slots.find? (·.accepts name)).map Slot.orNull :=
  List.find?_map

theorem readMember_eq_ok_iff_orNull (strict : Strict slots) (hfound : NoNulls found) :
    readMember slots found name s = .ok (ms, r) ↔
      readMember (slots.map Slot.orNull) found name s = .ok (ms, r) ∧ NoNulls ms := by
  simp only [readMember_eq_ok_iff, find?_accepts_orNull, Option.map_eq_none_iff,
    Option.map_eq_some_iff]
  constructor
  · rintro (⟨hfind, rfl, hskip⟩ | ⟨slot, hfind, hfresh, t, d, hcolon, hread, rfl⟩)
    · exact ⟨.inl ⟨hfind, rfl, hskip⟩, hfound⟩
    · have hslot := strict slot (List.mem_of_find?_eq_some hfind)
      obtain ⟨hread, hd⟩ := (Slot.read_eq_ok_iff_orNull hslot).1 hread
      exact ⟨.inr ⟨_, ⟨slot, hfind, rfl⟩, hfresh, t, d, hcolon, hread, rfl⟩,
        noNulls_cons.2 ⟨hd, hfound⟩⟩
  · rintro ⟨hmember, hms⟩
    rcases hmember with ⟨hfind, rfl, hskip⟩ |
      ⟨_, ⟨slot, hfind, rfl⟩, hfresh, t, d, hcolon, hread, rfl⟩
    · exact .inl ⟨hfind, rfl, hskip⟩
    · have hslot := strict slot (List.mem_of_find?_eq_some hfind)
      have hd := (noNulls_cons.1 hms).1
      exact .inr ⟨slot, hfind, hfresh, t, d, hcolon,
        (Slot.read_eq_ok_iff_orNull hslot).2 ⟨hread, hd⟩, rfl⟩

theorem Fields.orNull (h : Fields slots isFirst found s ms r) (strict : Strict slots)
    (hfound : NoNulls found) :
    Fields (slots.map Slot.orNull) isFirst found s ms r ∧ NoNulls ms := by
  induction h with
  | done hnext hall =>
    refine ⟨.done hnext (List.forall_mem_map.2 hall), fun m hm => hfound m (List.mem_reverse.1 hm)⟩
  | more hnext hname hmember _ ih =>
    obtain ⟨hmember, hfound⟩ := (readMember_eq_ok_iff_orNull strict hfound).1 hmember
    obtain ⟨hrest, hms⟩ := ih hfound
    exact ⟨.more hnext hname hmember hrest, hms⟩

/-- Members are never lost again, so if none is null at the end, none was on the way. -/
theorem Fields.of_orNull (h : Fields (slots.map Slot.orNull) isFirst found s ms r)
    (strict : Strict slots) (hms : NoNulls ms) : Fields slots isFirst found s ms r := by
  -- on the members so far nothing is assumed, they are among those at the end
  induction h with
  | done hnext hall => exact .done hnext (List.forall_mem_map.1 hall)
  | more hnext hname hmember hrest ih =>
    have hfound : NoNulls _ := fun m hm => hms m ((Fields.more hnext hname hmember hrest).subset hm)
    have hfound' : NoNulls _ := fun m hm => hms m (hrest.subset hm)
    exact .more hnext hname
      ((readMember_eq_ok_iff_orNull strict hfound).2 ⟨hmember, hfound'⟩) (ih hms)

end Records

/-! ## Records -/

/-- Each of the values may also be null. -/
def Shape.orNull (shape : Shape) : Shape :=
  { shape with slots := shape.slots.map Slot.orNull }

variable {shape : Shape} {ms : List (String × Data)} {s r : List Char}

theorem Shape.readFront_eq_ok_iff_orNull (strict : Strict shape.slots) :
    shape.readFront s = .ok (ms, r) ↔ shape.orNull.readFront s = .ok (ms, r) ∧ Data.NoNulls ms := by
  unfold Shape.readFront
  split
  · simp
  · next c t _ =>
    split
    · exact readSlots_eq_ok_iff_orNull shape shape.orNull strict
    · split
      · rw [readFields_eq_ok_iff, readFields_eq_ok_iff]
        exact ⟨fun h => h.orNull strict (List.forall_mem_nil _), fun h => h.1.of_orNull strict h.2⟩
      · cases glimpse c t <;> simp

theorem Shape.names_of_readFront (h : shape.readFront s = .ok (ms, r)) :
    ∀ m ∈ ms, m.1 ∈ shape.slots.map Slot.name := by
  unfold Shape.readFront at h
  split at h
  · cases h
  · split at h
    · exact fun m hm => (readSlots_isPrefix h).subset (List.mem_map_of_mem hm)
    · split at h
      · exact (readFields_eq_ok_iff.1 h).names (List.forall_mem_nil _)
      · split at h <;> cases h

theorem Shape.read_eq_ok_iff {d : Data} : shape.read s = .ok d ↔
    ∃ ms r, shape.readFront s = .ok (ms, r) ∧ readEnd r = .ok () ∧ d = .record ms := by
  unfold Shape.read
  constructor
  · intro h
    split at h
    · cases h
    · next ms r hfront =>
      split at h
      · cases h
      · next hend =>
        cases h
        exact ⟨ms, r, hfront, hend, rfl⟩
  · rintro ⟨ms, r, hfront, hend, rfl⟩
    simp only [hfront, hend]

/-- A shape is only read as a record. -/
theorem Shape.read_cases (shape : Shape) (s : List Char) :
    (∃ p, shape.read s = .error p) ∨ ∃ ms, shape.read s = .ok (.record ms) := by
  cases h : shape.read s with
  | error p => exact .inl ⟨p, rfl⟩
  | ok d =>
    obtain ⟨ms, _, _, _, rfl⟩ := Shape.read_eq_ok_iff.1 h
    exact .inr ⟨ms, rfl⟩

/-- Texts are taken as before, with the same members, and besides them only texts with a null. -/
theorem Shape.read_eq_ok_iff_orNull (strict : Strict shape.slots) :
    shape.read s = .ok (.record ms) ↔
      shape.orNull.read s = .ok (.record ms) ∧ Data.NoNulls ms := by
  simp only [Shape.read_eq_ok_iff, Shape.readFront_eq_ok_iff_orNull strict, Data.record.injEq]
  constructor
  · rintro ⟨_, r, ⟨hfront, hms⟩, hend, rfl⟩
    exact ⟨⟨_, r, hfront, hend, rfl⟩, hms⟩
  · rintro ⟨⟨_, r, hfront, hend, rfl⟩, hms⟩
    exact ⟨_, r, ⟨hfront, hms⟩, hend, rfl⟩

theorem Shape.names_of_read (h : shape.read s = .ok (.record ms)) :
    ∀ m ∈ ms, m.1 ∈ shape.slots.map Slot.name := by
  obtain ⟨_, r, hfront, _, heq⟩ := Shape.read_eq_ok_iff.1 h
  cases heq
  exact Shape.names_of_readFront hfront

end Json

end Discussion
