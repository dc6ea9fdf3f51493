import Mathlib.Data.List.TakeWhile
import Std.Data.String.ToNat
import Discussion.Text.Digits

/-!
# Runs of characters and numerals

Readers take the longest run of characters of one kind. A written run comes back whole if what follows
it is of another kind, and the run of the digits of a number has that number for its value.

* `lineFeeds text`: how many line feeds are in a text.
* `HasLines text lines`: the text consists of these lines, each of them ended by a line feed.
* `IsNumeral ds`: the digits of a number, without needless zeros in front.

Results:
1. `takeWhile_append`, `dropWhile_append`: where a run ends.
2. `eq_of_join_lines`: lines are runs that a line feed ends.
3. `HasLines.unique`, `lineFeeds_join_lines`: a text consists of lines in at most one way, and how many
   line feeds there are if some are in the lines.
4. `isNumeral_toDigits`, `valueOfDigits_toDigits`: the digits of a number.
-/

namespace Discussion.Text

variable {p : Char → Bool} {s r : List Char}

/-! ## Runs -/

/-- What follows a run does not go on with it. -/
def Stops (p : Char → Bool) (r : List Char) : Prop :=
  ∀ c ∈ r.head?, p c = false

theorem stops_nil : Stops p [] :=
  nofun

theorem stops_cons {c : Char} : Stops p (c :: r) ↔ p c = false := by
  simp [Stops]

theorem Stops.dropLast (h : Stops p r) : Stops p r.dropLast :=
  match r, h with
  | [], h => h
  | [_], _ => stops_nil
  | _ :: _ :: _, h => stops_cons.2 (stops_cons.1 h)

theorem Stops.takeWhile (h : Stops p r) : r.takeWhile p = [] := by
  cases r with
  | nil => rfl
  | cons c r => exact List.takeWhile_cons_of_neg (Bool.eq_false_iff.1 (stops_cons.1 h))

theorem Stops.dropWhile (h : Stops p r) : r.dropWhile p = r := by
  cases r with
  | nil => rfl
  | cons c r => exact List.dropWhile_cons_of_neg (Bool.eq_false_iff.1 (stops_cons.1 h))

theorem takeWhile_append (hs : ∀ c ∈ s, p c) (hr : Stops p r) : (s ++ r).takeWhile p = s := by
  rw [List.takeWhile_append_of_pos hs, hr.takeWhile, List.append_nil]

theorem dropWhile_append (hs : ∀ c ∈ s, p c) (hr : Stops p r) : (s ++ r).dropWhile p = r := by
  rw [List.dropWhile_append_of_pos hs, hr.dropWhile]

theorem stops_dropWhile (s : List Char) : Stops p (s.dropWhile p) := by
  induction s with
  | nil => exact stops_nil
  | cons c s ih =>
    by_cases hc : p c
    · rwa [List.dropWhile_cons_of_pos hc]
    · rw [List.dropWhile_cons_of_neg hc]
      exact stops_cons.2 (Bool.eq_false_iff.2 hc)

/-! ## Lines -/

/-- A line feed ends a line if there is none in it. -/
theorem line_append_inj {s t r r' : List Char} (hs : '\n' ∉ s) (ht : '\n' ∉ t)
    (h : s ++ '\n' :: r = t ++ '\n' :: r') : s = t ∧ r = r' := by
  have hplain {u : List Char} (hu : '\n' ∉ u) : ∀ c ∈ u, (c != '\n') = true := by
    intro c hc
    rw [bne_iff_ne]
    rintro rfl
    exact hu hc
  have hstop (u : List Char) : Stops (· != '\n') ('\n' :: u) := stops_cons.2 rfl
  have hst : s = t := by
    rw [← takeWhile_append (hplain hs) (hstop r), h, takeWhile_append (hplain ht) (hstop r')]
  refine ⟨hst, ?_⟩
  rw [hst] at h
  exact (List.cons.inj (List.append_cancel_left h)).2

/-- Texts that are written as one line each can be told apart. -/
theorem eq_of_join_lines {ls ms : List String} (hls : ∀ l ∈ ls, '\n' ∉ l.toList)
    (hms : ∀ m ∈ ms, '\n' ∉ m.toList)
    (h : String.join (ls.map (· ++ "\n")) = String.join (ms.map (· ++ "\n"))) : ls = ms := by
  have hchars : ls.flatMap (fun l => l.toList ++ ['\n']) = ms.flatMap fun m => m.toList ++ ['\n'] := by
    have htoList := congrArg String.toList h
    simp only [String.toList_join, List.flatMap_map, String.toList_append] at htoList
    exact htoList
  clear h
  induction ls generalizing ms with
  | nil =>
    cases ms with
    | nil => rfl
    | cons m ms => simp at hchars
  | cons l ls ih =>
    cases ms with
    | nil => simp at hchars
    | cons m ms =>
      obtain ⟨hl, hls⟩ := List.forall_mem_cons.1 hls
      obtain ⟨hm, hms⟩ := List.forall_mem_cons.1 hms
      rw [List.flatMap_cons, List.flatMap_cons, List.append_assoc, List.append_assoc] at hchars
      obtain ⟨hline, hrest⟩ := line_append_inj hl hm hchars
      rw [String.toList_inj.1 hline, ih hls hms hrest]

/-- The text consists of these lines, each of them ended by a line feed. -/
structure HasLines (text : String) (lines : List String) : Prop where
  text_eq : text = String.join (lines.map (· ++ "\n"))
  lineFeed_notMem : ∀ l ∈ lines, '\n' ∉ l.toList

theorem HasLines.unique {text : String} {ls ms : List String} (hls : HasLines text ls)
    (hms : HasLines text ms) : ls = ms :=
  eq_of_join_lines hls.lineFeed_notMem hms.lineFeed_notMem (hls.text_eq.symm.trans hms.text_eq)

/-- The number of line feeds in a text. -/
def lineFeeds (text : String) : Nat :=
  text.toList.count '\n'

theorem lineFeeds_append (s t : String) : lineFeeds (s ++ t) = lineFeeds s + lineFeeds t := by
  rw [lineFeeds, String.toList_append, List.count_append]
  rfl

theorem lineFeeds_eq_zero_iff {text : String} : lineFeeds text = 0 ↔ '\n' ∉ text.toList :=
  List.count_eq_zero

theorem lineFeeds_join_cons (l : String) (ls : List String) :
    lineFeeds (String.join (l :: ls)) = lineFeeds l + lineFeeds (String.join ls) := by
  rw [String.join_cons, lineFeeds_append]

/-- Beside the line feeds that end the lines there are those in the lines. -/
theorem lineFeeds_join_lines (ls : List String) :
    lineFeeds (String.join (ls.map (· ++ "\n"))) = ls.length + lineFeeds (String.join ls) := by
  induction ls with
  | nil => rfl
  | cons l ls ih =>
    have hend : lineFeeds "\n" = 1 := rfl
    rw [List.map_cons, lineFeeds_join_cons, lineFeeds_join_cons, lineFeeds_append, ih, hend,
      List.length_cons]
    omega

theorem lineFeeds_join_map {α : Type} {xs : List α} {f g : α → String}
    (h : ∀ x ∈ xs, lineFeeds (f x) = lineFeeds (g x)) :
    lineFeeds (String.join (xs.map f)) = lineFeeds (String.join (xs.map g)) := by
  induction xs with
  | nil => rfl
  | cons x xs ih =>
    obtain ⟨hx, hxs⟩ := List.forall_mem_cons.1 h
    rw [List.map_cons, List.map_cons, lineFeeds_join_cons, lineFeeds_join_cons, hx, ih hxs]

theorem lineFeeds_join_perm {ls ms : List String} (h : ls.Perm ms) :
    lineFeeds (String.join ls) = lineFeeds (String.join ms) := by
  rw [lineFeeds, lineFeeds, String.toList_join, String.toList_join]
  exact (h.flatMap_right _).count_eq _

theorem lineFeeds_join_eq_zero_iff {ls : List String} :
    lineFeeds (String.join ls) = 0 ↔ ∀ l ∈ ls, lineFeeds l = 0 := by
  simp [lineFeeds_eq_zero_iff, String.toList_join]

theorem HasLines.lineFeeds_eq {text : String} {ls : List String} (h : HasLines text ls) :
    lineFeeds text = ls.length := by
  have hnone : lineFeeds (String.join ls) = 0 :=
    lineFeeds_join_eq_zero_iff.2 fun l hl => lineFeeds_eq_zero_iff.2 (h.lineFeed_notMem l hl)
  rw [h.text_eq, lineFeeds_join_lines, hnone, Nat.add_zero]

/-! ## Numerals -/

/-- The digits of a number, of which the first one is zero only if it is the only one. -/
structure IsNumeral (ds : List Char) : Prop where
  nonempty : ds ≠ []
  digits : ∀ c ∈ ds, c.isDigit
  zero : ∀ s, ds = '0' :: s → s = []

theorem exists_toDigits_cons {n : Nat} (hn : n ≠ 0) :
    ∃ c s, Nat.toDigits 10 n = c :: s ∧ c ≠ '0' := by
  induction n using Nat.strongRecOn with
  | ind n ih =>
    by_cases hlt : n < 10
    · exact ⟨n.digitChar, [], Nat.toDigits_of_lt_base hlt, mt Nat.digitChar_eq_zero.1 hn⟩
    · obtain ⟨c, s, hs, hc⟩ := ih (n / 10) (by omega) (by omega)
      refine ⟨c, s ++ [(n % 10).digitChar], ?_, hc⟩
      rw [Nat.toDigits_of_base_le (by omega) (by omega), hs, List.cons_append]

theorem isNumeral_toDigits (n : Nat) : IsNumeral (Nat.toDigits 10 n) where
  nonempty := Nat.toDigits_ne_nil
  digits _ hc := Nat.isDigit_of_mem_toDigits (by omega) (by omega) hc
  zero s hs := by
    by_cases hn : n = 0
    · rw [hn, Nat.toDigits_zero] at hs
      exact (List.cons.inj hs).2.symm
    · obtain ⟨c, t, ht, hc⟩ := exists_toDigits_cons hn
      exact absurd (List.cons.inj (ht.symm.trans hs)).1 hc

theorem valueOfDigits_toDigits (n : Nat) :
    valueOfDigits 10 ((Nat.toDigits 10 n).map digitValue) = n := by
  rw [valueOfDigits, List.foldl_map]
  simp only [Nat.mul_comm _ 10]
  exact Nat.ofDigitChars_eq_foldl.symm.trans Nat.ofDigitChars_ten_toDigits

theorem toList_toString_natCast (n : Nat) : (toString (n : Int)).toList = Nat.toDigits 10 n := by
  show (toString n).toList = _
  rw [Nat.toString_eq_ofList_toDigits, String.toList_ofList]

theorem toList_toString_neg {n : Nat} (hn : n ≠ 0) :
    (toString (-(n : Int))).toList = '-' :: Nat.toDigits 10 n := by
  obtain ⟨m, rfl⟩ := Nat.exists_eq_succ_of_ne_zero hn
  show ("-" ++ Nat.repr (m + 1)).toList = _
  rw [String.toList_append, Nat.repr_eq_ofList_toDigits, String.toList_ofList, String.toList_ofList]
  rfl

theorem hexValue?_digitChar {n : Nat} (hn : n < 16) : hexValue? n.digitChar = some n := by
  have hall : ∀ k : Fin 16, hexValue? (Nat.digitChar k) = some k.val := by decide
  exact hall ⟨n, hn⟩

end Discussion.Text
