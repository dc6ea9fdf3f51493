import Mathlib.Algebra.Group.Nat.Defs
import Mathlib.Data.List.TakeWhile
import Discussion.Proofs.Files.Loading
import Discussion.Settings.Load

/-!
# What the values of variables say

A variable gives a setting as a text. Which texts name a format, which ones are numbers, and what is said of
the others.

* `Format.Named text format`: the text names the format.
* `Word.Written text n`: the text is the number `n`, which fits a word.
* `Format.Unnamed text reason`, `Word.Unwritten text reason`: the text does not, for this reason.

Results:
1. `Format.parse_iff`: formats are read by their names.
2. `readWord_iff`: numbers are read by their digits, and the first place where a text goes wrong tells what
   is said of it.
-/

namespace Discussion

open Workspace (eq_iff_of_total)

/-! ## Formats -/

namespace Format

variable {format : Format} {s : String}

theorem ofName?_eq_some_iff : ofName? s = some format ↔ s = format.name := by
  constructor
  · intro hname
    unfold ofName? at hname
    split at hname
    · next hjson => cases hname; exact hjson
    · split at hname
      · next htoml => cases hname; exact htoml
      · cases hname
  · rintro rfl
    cases format <;> decide +kernel

theorem ofExtension?_eq_some_iff : ofExtension? s = some format ↔ lowerCase s = format.name :=
  ofName?_eq_some_iff

theorem ofExtension?_eq_none_iff :
    ofExtension? s = none ↔ ∀ format : Format, lowerCase s ≠ format.name := by
  rw [Option.eq_none_iff_forall_ne_some]
  exact forall_congr' fun format => ofExtension?_eq_some_iff.not

/-- The text is the name of the format, in letters of either case and with white space around it. -/
def Named (text : String) (format : Format) : Prop :=
  lowerCase (Text.trim text) = format.name

instance (text : String) (format : Format) : Decidable (Named text format) :=
  inferInstanceAs (Decidable (lowerCase (Text.trim text) = format.name))

/-- The text names no format, and this is what is said of it. -/
def Unnamed (text reason : String) : Prop :=
  (∀ format, ¬ Named text format) ∧ reason = "unknown input format: " ++ text

theorem parse_iff (text : String) : (∀ format, parse text = .ok format ↔ Named text format) ∧
    ∀ reason, parse text = .error reason ↔ Unnamed text reason := by
  refine eq_iff_of_total ?_ ?_ ?_
  · by_cases hnamed : ∃ format, Named text format
    · exact .inl hnamed
    · exact .inr ⟨_, not_exists.1 hnamed, rfl⟩
  · intro format hnamed
    have hformat := ofExtension?_eq_some_iff.2 hnamed
    rw [parse, hformat]
  · rintro _ ⟨hunnamed, rfl⟩
    have hnone := ofExtension?_eq_none_iff.2 hunnamed
    rw [parse, hnone]

end Format

/-! ## Numbers -/

namespace Word

/-- What is behind the plus sign of a text; the whole text if it does not begin with one. -/
def unsigned (text : String) : List Char :=
  match text.toList with
  | '+' :: r => r
  | r => r

/-- The text is the number in decimal digits, perhaps behind a plus sign. -/
structure Written (text : String) (n : UInt64) : Prop where
  nonempty : unsigned text ≠ []
  digits : ∀ d ∈ unsigned text, d.isDigit
  value : Nat.ofDigitChars 10 (unsigned text) 0 = n.toNat

/-- The text is no number that fits a word, and this is what is said of it. -/
inductive Unwritten (text : String) : String → Prop
  | empty : text.toList = [] → Unwritten text "cannot parse integer from empty string"
  | sign : text.toList = ['+'] → Unwritten text "invalid digit found in string"
  /-- Behind digits that fit a word comes something else. -/
  | character {ds r : List Char} {c : Char} : unsigned text = ds ++ c :: r → (∀ d ∈ ds, d.isDigit) →
      Nat.ofDigitChars 10 ds 0 < 2 ^ 64 → c.isDigit = false → Unwritten text "invalid digit found in string"
  /-- There are digits that do not fit a word, whatever comes behind them. -/
  | tooLarge {ds r : List Char} : unsigned text = ds ++ r → (∀ d ∈ ds, d.isDigit) →
      2 ^ 64 ≤ Nat.ofDigitChars 10 ds 0 → Unwritten text "number too large to fit in target type"

variable {n : Nat} {ds r : List Char} {c : Char}

theorem le_ofDigitChars (n : Nat) (ds : List Char) : n ≤ Nat.ofDigitChars 10 ds n := by
  induction ds generalizing n with
  | nil => exact Nat.le_refl n
  | cons d ds ih =>
    rw [Nat.ofDigitChars_cons]
    exact Nat.le_trans (by omega) (ih _)

theorem readWordDigits_cons (hc : c.isDigit) : readWordDigits n (c :: r) =
    if Nat.ofDigitChars 10 [c] n < 2 ^ 64 then readWordDigits (Nat.ofDigitChars 10 [c] n) r
    else .error "number too large to fit in target type" := by
  rw [readWordDigits, hc, Nat.ofDigitChars_cons, Nat.ofDigitChars_nil, Nat.mul_comm 10 n]
  rfl

theorem readWordDigits_append (hds : ∀ d ∈ ds, d.isDigit) (hvalue : Nat.ofDigitChars 10 ds n < 2 ^ 64) :
    readWordDigits n (ds ++ r) = readWordDigits (Nat.ofDigitChars 10 ds n) r := by
  induction ds generalizing n with
  | nil => rfl
  | cons d ds ih =>
    rw [List.forall_mem_cons] at hds
    have hstep := Nat.lt_of_le_of_lt (le_ofDigitChars (Nat.ofDigitChars 10 [d] n) ds) hvalue
    rw [List.cons_append, readWordDigits_cons hds.1, if_pos hstep]
    exact ih hds.2 hvalue

theorem readWordDigits_tooLarge (hds : ∀ d ∈ ds, d.isDigit) (hn : n < 2 ^ 64)
    (hvalue : 2 ^ 64 ≤ Nat.ofDigitChars 10 ds n) :
    readWordDigits n (ds ++ r) = .error "number too large to fit in target type" := by
  induction ds generalizing n with
  | nil => exact absurd hn (Nat.not_lt.2 hvalue)
  | cons d ds ih =>
    rw [List.forall_mem_cons] at hds
    rw [List.cons_append, readWordDigits_cons hds.1]
    split
    · next hstep => exact ih hds.2 hstep hvalue
    · rfl

theorem readWord_eq {text : String} (h : unsigned text ≠ []) :
    readWord text = readWordDigits 0 (unsigned text) := by
  unfold readWord unsigned at *
  split at h
  · next r htext =>
    rw [htext]
    cases r with
    | nil => exact absurd rfl h
    | cons c r => rfl
  · next hplain =>
    split
    · next htext => exact absurd htext h
    · next htext => exact absurd htext (hplain [])
    · next r _ htext => exact absurd htext (hplain r)
    · rfl

/-- A text is written, or it is not for some reason. -/
theorem written_or_unwritten (text : String) :
    (∃ n, Written text n) ∨ ∃ reason, Unwritten text reason := by
  by_cases hempty : unsigned text = []
  · right
    unfold unsigned at hempty
    split at hempty
    · next r htext => exact ⟨_, .sign (by rw [htext, hempty])⟩
    · exact ⟨_, .empty hempty⟩
  -- the digits at the beginning, and what follows them
  have hdigits : ∀ d ∈ (unsigned text).takeWhile Char.isDigit, d.isDigit := fun d =>
    List.mem_takeWhile_imp
  have htext : unsigned text = (unsigned text).takeWhile Char.isDigit ++
      (unsigned text).dropWhile Char.isDigit := List.takeWhile_append_dropWhile.symm
  by_cases hvalue : Nat.ofDigitChars 10 ((unsigned text).takeWhile Char.isDigit) 0 < 2 ^ 64
  · cases hrest : (unsigned text).dropWhile Char.isDigit with
    | nil =>
      rw [hrest, List.append_nil] at htext
      rw [← htext] at hdigits hvalue
      exact .inl ⟨UInt64.ofNat _, hempty, hdigits, (UInt64.toNat_ofNat_of_lt' hvalue).symm⟩
    | cons c r =>
      have hc : c.isDigit = false := by
        have hhead := List.head?_dropWhile_not Char.isDigit (unsigned text)
        rw [hrest] at hhead
        exact hhead
      rw [hrest] at htext
      exact .inr ⟨_, .character htext hdigits hvalue hc⟩
  · exact .inr ⟨_, .tooLarge htext hdigits (Nat.not_lt.1 hvalue)⟩

theorem Written.readWord_eq_ok {text : String} {n : UInt64} (h : Written text n) :
    readWord text = .ok n := by
  have hread := readWordDigits_append (r := []) h.digits (h.value ▸ n.toNat_lt)
  rw [List.append_nil] at hread
  rw [readWord_eq h.nonempty, hread, h.value, readWordDigits, UInt64.ofNat_toNat]

theorem Unwritten.readWord_eq_error {text reason : String} (h : Unwritten text reason) :
    readWord text = .error reason := by
  cases h with
  | empty htext => rw [readWord, htext]
  | sign htext =>
    rw [readWord, htext]
    rfl
  | @character ds r c htext hds hvalue hc =>
    rw [readWord_eq (by simp [htext]), htext, readWordDigits_append hds hvalue, readWordDigits, hc]
    rfl
  | @tooLarge ds r htext hds hvalue =>
    have hne : ds ≠ [] := by
      rintro rfl
      exact absurd hvalue (by decide)
    rw [readWord_eq (by simp [htext, hne]), htext, readWordDigits_tooLarge hds (by decide) hvalue]

end Word

theorem readWord_iff (text : String) : (∀ n, readWord text = .ok n ↔ Word.Written text n) ∧
    ∀ reason, readWord text = .error reason ↔ Word.Unwritten text reason :=
  eq_iff_of_total (Word.written_or_unwritten text) (fun _ => Word.Written.readWord_eq_ok)
    fun _ => Word.Unwritten.readWord_eq_error

end Discussion
