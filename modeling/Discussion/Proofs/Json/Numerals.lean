import Discussion.Json.Reader
import Discussion.Proofs.Text.Runs

/-!
# Whole numbers

A number from 0 up is what is written in digits alone.

* `EndsNumber r`: what stands behind a number does not go on with it.

Results:
1. `readNumber_natural`, `readNumber_negative`: written integers are read back.
2. `run_valueReader_natural_iff`: a reader returns a number from 0 up exactly where its digits stand.
-/

namespace Discussion.Json

open Text

/-- What stands behind a number: no digit, no point and no exponent. -/
def EndsNumber (r : List Char) : Prop :=
  Stops (fun c => c.isDigit || c == '.' || c == 'e' || c == 'E') r

theorem endsNumber_nil : EndsNumber [] :=
  stops_nil

theorem endsNumber_cons {c : Char} {r : List Char} :
    EndsNumber (c :: r) ↔ c.isDigit = false ∧ c ≠ '.' ∧ c ≠ 'e' ∧ c ≠ 'E' := by
  simp [EndsNumber, stops_cons, and_assoc]

theorem EndsNumber.digits {r : List Char} (h : EndsNumber r) : Stops Char.isDigit r := by
  intro c hc
  have hstop := h c hc
  simp only [Bool.or_eq_false_iff] at hstop
  exact hstop.1.1.1

variable {negative : Bool} {s r ds : List Char}

namespace Numeral

/-! ## From digits to a number -/

theorem readWhole_append (hds : IsNumeral ds) (hr : Stops Char.isDigit r) :
    readWhole (ds ++ r) = .ok (ds, r) := by
  obtain ⟨nonempty, digits, zero⟩ := hds
  cases ds with
  | nil => exact absurd rfl nonempty
  | cons c s =>
    obtain ⟨hc, hs⟩ := List.forall_mem_cons.1 digits
    rw [List.cons_append, readWhole]
    by_cases h0 : c = '0'
    · obtain rfl := zero s (h0 ▸ rfl)
      rw [if_pos h0, List.nil_append, hr.takeWhile, h0]
      rfl
    · rw [if_neg h0, if_pos hc, takeWhile_append hs hr, dropWhile_append hs hr]

theorem readFraction_of_ends (hr : EndsNumber r) : readFraction r = .ok ([], r) := by
  unfold readFraction
  split
  · exact absurd rfl (endsNumber_cons.1 hr).2.1
  · rfl

theorem readExponent_of_ends (hr : EndsNumber r) : readExponent r = .ok (none, r) := by
  cases r with
  | nil => rfl
  | cons c r =>
    obtain ⟨_, _, he, hE⟩ := endsNumber_cons.1 hr
    simp only [readExponent, if_neg (not_or.2 ⟨he, hE⟩)]

theorem read_append (negative : Bool) (hds : IsNumeral ds) (hr : EndsNumber r) :
    read negative (ds ++ r) = .ok (⟨negative, ds, [], none⟩, r) := by
  rw [read, readWhole_append hds hr.digits]
  simp only [readFraction_of_ends hr, readExponent_of_ends hr]

/-! ## From a number to its digits -/

theorem readWhole_eq_ok {whole : List Char} (h : readWhole s = .ok (whole, r)) :
    s = whole ++ r ∧ IsNumeral whole ∧ Stops Char.isDigit r := by
  cases s with
  | nil => cases h
  | cons c t =>
    have hrun := List.takeWhile_append_dropWhile (p := Char.isDigit) (l := t)
    have hstops := stops_dropWhile (p := Char.isDigit) t
    rw [readWhole] at h
    split at h
    · next h0 =>
      split at h
      · next ht =>
        rw [List.isEmpty_iff.1 ht, List.nil_append] at hrun
        cases h
        have hdigit : ∀ c ∈ ['0'], c.isDigit := List.forall_mem_singleton.2 rfl
        refine ⟨by rw [h0]; rfl, ⟨List.cons_ne_nil _ _, hdigit, fun u hu => ?_⟩, hrun ▸ hstops⟩
        exact (List.cons.inj hu).2.symm
      · cases h
    · next h0 =>
      split at h
      · next hc =>
        cases h
        refine ⟨by rw [List.cons_append, hrun], ⟨List.cons_ne_nil _ _, ?_, fun u hu => ?_⟩, hstops⟩
        · exact List.forall_mem_cons.2 ⟨hc, fun d hd => List.mem_takeWhile_imp hd⟩
        · exact absurd (List.cons.inj hu).1 h0
      · cases h

theorem readFraction_eq_ok (h : readFraction s = .ok ([], r)) : s = r ∧ ∀ c ∈ r.head?, c ≠ '.' := by
  unfold readFraction at h
  split at h
  · split at h
    · cases h
    · next hs =>
      simp only [Except.ok.injEq, Prod.mk.injEq] at h
      exact absurd (List.isEmpty_iff.2 h.1) hs
  · next hs =>
    cases h
    refine ⟨rfl, fun c hc hpoint => ?_⟩
    obtain ⟨t, ht⟩ := List.head?_eq_some_iff.1 hc
    exact hs t (hpoint ▸ ht)

theorem readExponent_eq_ok (h : readExponent s = .ok (none, r)) :
    s = r ∧ ∀ c ∈ r.head?, c ≠ 'e' ∧ c ≠ 'E' := by
  have hdigits {negative : Bool} {t : List Char} :
      readExponentDigits negative t ≠ .ok (none, r) := by
    unfold readExponentDigits
    split <;> simp
  cases s with
  | nil =>
    cases h
    exact ⟨rfl, nofun⟩
  | cons c s =>
    simp only [readExponent] at h
    split at h
    · split at h <;> exact absurd h hdigits
    · next hc =>
      cases h
      exact ⟨rfl, fun d hd => not_or.1 (Option.mem_some.1 hd ▸ hc)⟩

theorem read_eq_ok {n : Numeral} (h : read negative s = .ok (n, r)) (hfraction : n.fraction = [])
    (hexponent : n.exponent = none) :
    n.negative = negative ∧ s = n.whole ++ r ∧ IsNumeral n.whole ∧ EndsNumber r := by
  unfold read at h
  split at h
  · cases h
  · next hwhole =>
    split at h
    · cases h
    · next hf =>
      split at h
      · cases h
      · next he =>
        cases h
        obtain rfl : _ = [] := hfraction
        obtain rfl : _ = none := hexponent
        obtain ⟨rfl, hpoint⟩ := readFraction_eq_ok hf
        obtain ⟨rfl, hexp⟩ := readExponent_eq_ok he
        obtain ⟨hs, hnumeral, hstops⟩ := readWhole_eq_ok hwhole
        refine ⟨rfl, hs, hnumeral, fun c hc => ?_⟩
        simp [hstops c hc, hpoint c hc, hexp c hc]

theorem integerValue?_digits (h : (valueOfDigits 10 (ds.map digitValue) : Int) < UInt64.size) :
    integerValue? ⟨false, ds, [], none⟩ = some (valueOfDigits 10 (ds.map digitValue) : Int) := by
  have hplain : (Numeral.mk false ds [] none).fraction.isEmpty ∧
      (Numeral.mk false ds [] none).exponent.isNone := ⟨rfl, rfl⟩
  rw [integerValue?, if_pos hplain]
  simp only [Bool.false_eq_true, if_false, if_pos h]

theorem value_of_integerValue? {n : Numeral} {z : Int} (h : n.integerValue? = some z) :
    n.value = .ok (.integer z) := by
  rw [value, h]

theorem value_eq_integer {n : Numeral} {z : Int} (h : n.value = .ok (.integer z)) :
    n.integerValue? = some z := by
  unfold value at h
  split at h
  · next hz =>
    cases h
    exact hz
  · split at h <;> cases h

theorem integerValue?_eq_natural {n : Numeral} {z : Int} (h : n.integerValue? = some z)
    (hz : 0 ≤ z) : n.fraction = [] ∧ n.exponent = none ∧ n.negative = false ∧
      z = valueOfDigits 10 (n.whole.map digitValue) ∧ z < UInt64.size := by
  unfold integerValue? at h
  split at h
  · next hint =>
    refine ⟨List.isEmpty_iff.1 hint.1, Option.isNone_iff_eq_none.1 hint.2, ?_⟩
    simp only at h
    split at h
    · split at h
      · simp only [Option.some.injEq] at h
        omega
      · cases h
    · next hnegative =>
      split at h
      · next hlt =>
        cases h
        exact ⟨Bool.eq_false_iff.2 hnegative, rfl, hlt⟩
      · cases h
  · cases h

end Numeral

/-! ## Numbers -/

theorem readNumber_of_value {n : Numeral} {d : Data} (hread : Numeral.read negative s = .ok (n, r))
    (hvalue : n.value = .ok d) : readNumber negative s = .ok (d, r) := by
  simp only [readNumber, hread, hvalue]

theorem readNumber_natural (hds : IsNumeral ds) (hr : EndsNumber r)
    (hlt : valueOfDigits 10 (ds.map digitValue) < UInt64.size) :
    readNumber false (ds ++ r) = .ok (.integer (valueOfDigits 10 (ds.map digitValue)), r) :=
  readNumber_of_value (Numeral.read_append false hds hr)
    (Numeral.value_of_integerValue? (Numeral.integerValue?_digits (Int.ofNat_lt.2 hlt)))

theorem readNumber_negative (hds : IsNumeral ds) (hr : EndsNumber r)
    (hpos : 0 < valueOfDigits 10 (ds.map digitValue))
    (hle : (valueOfDigits 10 (ds.map digitValue) : Int) ≤ Data.signedLimit) :
    readNumber true (ds ++ r) = .ok (.integer (-valueOfDigits 10 (ds.map digitValue)), r) := by
  have hvalue : Numeral.integerValue? ⟨true, ds, [], none⟩ =
      some (-(valueOfDigits 10 (ds.map digitValue) : Int)) := by
    simp only [Numeral.integerValue?]
    simp [hpos, hle]
  exact readNumber_of_value (Numeral.read_append true hds hr)
    (Numeral.value_of_integerValue? hvalue)

/-- A number from 0 up was written without sign, fraction and exponent. -/
theorem readNumber_eq_natural {z : Int} (h : readNumber negative s = .ok (.integer z, r))
    (hz : 0 ≤ z) : negative = false ∧ z < UInt64.size ∧ ∃ ds, s = ds ++ r ∧ IsNumeral ds ∧
      EndsNumber r ∧ z = valueOfDigits 10 (ds.map digitValue) := by
  unfold readNumber at h
  split at h
  · cases h
  · next n t hread =>
    split at h
    · next hvalue =>
      cases h
      obtain ⟨hfraction, hexponent, hnegative, hz, hlt⟩ :=
        Numeral.integerValue?_eq_natural (Numeral.value_eq_integer hvalue) hz
      obtain ⟨rfl, hs, hnumeral, hends⟩ := Numeral.read_eq_ok hread hfraction hexponent
      exact ⟨hnegative, hlt, n.whole, hs, hnumeral, hends, hz⟩
    · cases h

theorem readValue_of_isDigit {inner : Option (Reader Data)} {c : Char} (hc : c.isDigit)
    (s : List Char) : readValue inner c s = readNumber false (c :: s) := by
  unfold readValue
  split
  case h_8 => rw [if_pos hc]
  all_goals exact absurd hc (by decide)

theorem readValue_eq_natural {inner : Option (Reader Data)} {c : Char} {z : Int}
    (h : readValue inner c s = .ok (.integer z, r)) (hz : 0 ≤ z) :
    c.isDigit ∧ readNumber false (c :: s) = .ok (.integer z, r) := by
  have hconstant {w t : List Char} {d : Data} (hd : d ≠ .integer z) :
      readConstant w d t ≠ .ok (.integer z, r) := by
    unfold readConstant
    split <;> simp [hd]
  have hmap {α : Type} {g : α → Data} {x : Except Failure (α × List Char)}
      (hg : ∀ a, g a ≠ .integer z) : mapValue g x ≠ .ok (.integer z, r) := by
    unfold mapValue
    split <;> simp [hg]
  unfold readValue at h
  split at h
  case h_4 => exact absurd (readNumber_eq_natural h hz).1 (by decide)
  case h_8 =>
    split at h
    · next hc => exact ⟨hc, h⟩
    · cases h
  case h_6 =>
    split at h
    · cases h
    · exact absurd h (hmap nofun)
  case h_7 =>
    split at h
    · cases h
    · exact absurd h (hmap nofun)
  case h_5 => exact absurd h (hmap nofun)
  all_goals exact absurd h (hconstant nofun)

/-- A reader returns a number from 0 up exactly where its digits stand, with nothing that goes on with
the number behind them. -/
theorem run_valueReader_natural_iff (n : Nat) (k : UInt64) :
    (valueReader n).run s = .ok (.integer k.toNat, r) ↔
      ∃ ds, skipSpace s = ds ++ r ∧ IsNumeral ds ∧ EndsNumber r ∧
        valueOfDigits 10 (ds.map digitValue) = k.toNat := by
  have hrun : ∃ inner, (valueReader n).run s = readSpacedValue inner s := by
    cases n with
    | zero => exact ⟨none, rfl⟩
    | succ n => exact ⟨some (valueReader n), rfl⟩
  obtain ⟨inner, hrun⟩ := hrun
  rw [hrun, readSpacedValue]
  constructor
  · intro h
    split at h
    · cases h
    · next c t ht =>
      obtain ⟨hc, hread⟩ := readValue_eq_natural h (Int.natCast_nonneg _)
      obtain ⟨-, -, ds, hds, hnumeral, hends, hvalue⟩ :=
        readNumber_eq_natural hread (Int.natCast_nonneg _)
      exact ⟨ds, ht.trans hds, hnumeral, hends, (Int.ofNat_inj.1 hvalue).symm⟩
  · rintro ⟨ds, hs, hnumeral, hends, hvalue⟩
    rw [hs]
    obtain ⟨nonempty, digits, -⟩ := id hnumeral
    cases ds with
    | nil => exact absurd rfl nonempty
    | cons c ds =>
      have hlt : valueOfDigits 10 ((c :: ds).map digitValue) < UInt64.size :=
        hvalue ▸ k.toNat_lt_size
      have hread := readNumber_natural hnumeral hends hlt
      rw [hvalue] at hread
      exact (readValue_of_isDigit (digits c (List.mem_cons_self ..)) _).trans hread

end Discussion.Json
