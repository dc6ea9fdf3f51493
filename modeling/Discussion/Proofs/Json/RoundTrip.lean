import Discussion.Proofs.Json.Numerals
import Discussion.Proofs.Json.Texts

/-!
# Written values

Whatever is written on one line or on many lines is read back.

* `Spellable n d`: the data `d` has no floats, integers that the reader takes for integers, and at most
  `n` brackets open at a time.
* `Spells n w d`: the reader of depth `n` takes the text `w` for `d`, whatever stands behind it.
* `separated gap write as`: the inside of brackets, on one line or on many.

Floats are left out because two of them may be written alike.

Results:
1. `spells_compact`, `spells_pretty`: what is written spells what it was written for.
2. `read_compactText`, `read_prettyText`: a text that holds what was written and nothing else.
-/

namespace Discussion.Json

open Text

/-- Data that is read back as it was written. -/
inductive Spellable : Nat → Data → Prop
  | null {n : Nat} : Spellable n .null
  | boolean {n : Nat} (b : Bool) : Spellable n (.boolean b)
  | integer {n : Nat} {z : Int} : -Data.signedLimit ≤ z → z < UInt64.size → Spellable n (.integer z)
  | text {n : Nat} (t : String) : Spellable n (.text t)
  | list {n : Nat} {ds : List Data} : (∀ d ∈ ds, Spellable n d) → Spellable (n + 1) (.list ds)
  | record {n : Nat} {ms : List (String × Data)} :
      (∀ m ∈ ms, Spellable n m.2) → Spellable (n + 1) (.record ms)

/-- A text that the reader of depth `n` takes for `d`. -/
structure Spells (n : Nat) (w : List Char) (d : Data) : Prop where
  /-- It can stand first in brackets, and behind white space. -/
  begins : ∃ c t, w = c :: t ∧ isSpace c = false ∧ c ≠ ']'
  /-- It is read whatever stands behind it. -/
  run : ∀ r, EndsNumber r → (valueReader n).run (w ++ r) = .ok (d, r)

universe u

theorem Spellable.natural (n : Nat) {k : Nat} (hk : k < UInt64.size) :
    Spellable n (.integer k) := by
  refine .integer ?_ (Int.ofNat_lt.2 hk)
  have := Int.natCast_nonneg k
  unfold Data.signedLimit
  omega

/-- The inside of brackets: commas between what is written for the items, and `gap` before each. -/
def separated {α : Type u} (gap : List Char) (write : α → List Char) : List α → List Char
  | [] => []
  | a :: as => gap ++ write a ++ as.flatMap fun b => ',' :: (gap ++ write b)

/-- A member in a record, with `pad` behind the colon. -/
def writeMember (pad : List Char) (write : Data → List Char) (m : String × Data) : List Char :=
  writeText m.1 ++ ':' :: (pad ++ write m.2)

/-! ## The inside of brackets as it is written -/

theorem compactItems_eq (ds : List Data) : compactItems ds = separated [] compact ds := by
  induction ds with
  | nil => rfl
  | cons d ds ih =>
    cases ds with
    | nil => simp [compactItems, separated]
    | cons e ds => simp [compactItems, separated, ih]

theorem compactMembers_eq (ms : List (String × Data)) :
    compactMembers ms = separated [] (writeMember [] compact) ms := by
  induction ms with
  | nil => rfl
  | cons m ms ih =>
    cases ms with
    | nil => simp [compactMembers, separated, writeMember]
    | cons m' ms =>
      rw [compactMembers, ih]
      simp [separated, writeMember]

theorem prettyItems_eq (level : Nat) (ds : List Data) :
    prettyItems level ds = separated (newLine level) (pretty level) ds := by
  induction ds with
  | nil => rfl
  | cons d ds ih =>
    cases ds with
    | nil => simp [prettyItems, separated]
    | cons e ds => simp [prettyItems, separated, ih]

theorem prettyMembers_eq (level : Nat) (ms : List (String × Data)) :
    prettyMembers level ms = separated (newLine level) (writeMember [' '] (pretty level)) ms := by
  induction ms with
  | nil => rfl
  | cons m ms ih =>
    cases ms with
    | nil => simp [prettyMembers, separated, writeMember]
    | cons m' ms =>
      rw [prettyMembers, ih]
      simp [separated, writeMember]

/-! ## White space -/

/-- A text of white space. -/
def IsGap (gap : List Char) : Prop :=
  ∀ c ∈ gap, isSpace c

theorem isGap_nil : IsGap [] :=
  nofun

theorem isGap_newLine (level : Nat) : IsGap (newLine level) := by
  intro c hc
  rcases List.mem_cons.1 hc with rfl | hc
  · decide
  · rw [List.eq_of_mem_replicate hc]
    decide

variable {gap tail w r s : List Char} {n : Nat} {d : Data} {c : Char}

theorem skipSpace_append (hgap : IsGap gap) (s : List Char) : skipSpace (gap ++ s) = skipSpace s :=
  List.dropWhile_append_of_pos hgap

theorem skipSpace_cons (hc : isSpace c = false) (s : List Char) : skipSpace (c :: s) = c :: s :=
  List.dropWhile_cons_of_neg (Bool.eq_false_iff.1 hc)

theorem skipSpace_gap_cons (hgap : IsGap gap) (hc : isSpace c = false) (s : List Char) :
    skipSpace (gap ++ c :: s) = c :: s :=
  (skipSpace_append hgap _).trans (skipSpace_cons hc s)

theorem endsNumber_gap_append (hgap : IsGap gap) (hs : EndsNumber s) : EndsNumber (gap ++ s) := by
  cases gap with
  | nil => exact hs
  | cons c gap =>
    have hc : isSpace c := hgap c (List.mem_cons_self ..)
    simp only [isSpace, Bool.or_eq_true, beq_iff_eq, or_assoc] at hc
    rcases hc with rfl | rfl | rfl | rfl <;> exact endsNumber_cons.2 (by decide)

theorem readEnd_gap (hgap : IsGap gap) : readEnd gap = .ok () := by
  rw [readEnd, ← List.append_nil gap, skipSpace_append hgap]
  rfl

/-! ## Values without brackets -/

theorem readWord_append (w r : List Char) : readWord w (w ++ r) = .ok r := by
  induction w with
  | nil => rfl
  | cons c w ih => rw [List.cons_append, readWord, if_pos rfl, ih]

theorem run_valueReader_gap (n : Nat) (hgap : IsGap gap) (s : List Char) :
    (valueReader n).run (gap ++ s) = (valueReader n).run s := by
  have hspaced (inner : Option (Reader Data)) :
      readSpacedValue inner (gap ++ s) = readSpacedValue inner s := by
    rw [readSpacedValue, readSpacedValue, skipSpace_append hgap]
  cases n with
  | zero => exact hspaced none
  | succ n => exact hspaced (some (valueReader n))

theorem run_valueReader_succ (hc : isSpace c = false) (s : List Char) :
    (valueReader (n + 1)).run (c :: s) = readValue (some (valueReader n)) c s := by
  show readSpacedValue _ _ = _
  rw [readSpacedValue, skipSpace_cons hc]

/-- A value without brackets is read alike at every depth. -/
theorem spells_of_readValue (hc : isSpace c = false) (hclose : c ≠ ']')
    (h : ∀ inner r, EndsNumber r → readValue inner c (s ++ r) = .ok (d, r)) :
    Spells n (c :: s) d where
  begins := ⟨c, s, rfl, hc, hclose⟩
  run r hr := by
    cases n with
    | zero =>
      show readSpacedValue none (c :: (s ++ r)) = _
      rw [readSpacedValue, skipSpace_cons hc]
      exact h none r hr
    | succ n => exact (run_valueReader_succ hc _).trans (h _ r hr)

theorem readConstant_append (w r : List Char) (d : Data) :
    readConstant w d (w ++ r) = .ok (d, r) := by
  rw [readConstant, readWord_append]

theorem spells_null : Spells n (writeAtom .null) .null :=
  spells_of_readValue (by decide) (by decide) fun _ r _ => readConstant_append ['u', 'l', 'l'] r _

theorem spells_boolean (b : Bool) : Spells n (writeAtom (.boolean b)) (.boolean b) := by
  cases b with
  | true =>
    exact spells_of_readValue (by decide) (by decide)
      fun _ r _ => readConstant_append ['r', 'u', 'e'] r _
  | false =>
    exact spells_of_readValue (by decide) (by decide)
      fun _ r _ => readConstant_append ['a', 'l', 's', 'e'] r _

theorem spells_text (t : String) : Spells n (writeAtom (.text t)) (.text t) := by
  refine spells_of_readValue (by decide) (by decide) fun inner r _ => ?_
  rw [List.append_assoc, List.singleton_append]
  show mapValue Data.text (readText _) = _
  rw [readText_writeText, mapValue]

theorem isSpace_of_isDigit (hc : c.isDigit) : isSpace c = false := by
  rw [Bool.eq_false_iff]
  intro hspace
  simp only [isSpace, Bool.or_eq_true, beq_iff_eq, or_assoc] at hspace
  rcases hspace with rfl | rfl | rfl | rfl <;> exact absurd hc (by decide)

theorem spells_natural {k : Nat} (hk : k < UInt64.size) :
    Spells n (writeAtom (.integer k)) (.integer k) := by
  have hnumeral := isNumeral_toDigits k
  have hvalue := valueOfDigits_toDigits k
  rw [writeAtom, toList_toString_natCast]
  generalize Nat.toDigits 10 k = ds at hnumeral hvalue
  cases ds with
  | nil => exact absurd rfl hnumeral.nonempty
  | cons c ds =>
    have hc : c.isDigit := hnumeral.digits c (List.mem_cons_self ..)
    have hclose : c ≠ ']' := by
      rintro rfl
      exact absurd hc (by decide)
    refine spells_of_readValue (isSpace_of_isDigit hc) hclose fun inner r hr => ?_
    have hread := readNumber_natural hnumeral hr (hvalue ▸ hk)
    rw [hvalue] at hread
    exact (readValue_of_isDigit hc _).trans hread

theorem spells_negative {k : Nat} (hpos : k ≠ 0) (hk : (k : Int) ≤ Data.signedLimit) :
    Spells n (writeAtom (.integer (-k))) (.integer (-k)) := by
  have hvalue := valueOfDigits_toDigits k
  rw [writeAtom, toList_toString_neg hpos]
  refine spells_of_readValue (by decide) (by decide) fun inner r hr => ?_
  have hread := readNumber_negative (isNumeral_toDigits k) hr (by omega) (by rwa [hvalue])
  rwa [hvalue] at hread

theorem spells_integer {z : Int} (hlow : -Data.signedLimit ≤ z) (hhigh : z < UInt64.size) :
    Spells n (writeAtom (.integer z)) (.integer z) := by
  rcases Int.le_total 0 z with hz | hz
  · obtain ⟨k, rfl⟩ := Int.eq_ofNat_of_zero_le hz
    exact spells_natural (Int.ofNat_lt.1 hhigh)
  · obtain ⟨k, hk⟩ := Int.eq_ofNat_of_zero_le (Int.neg_nonneg.2 hz)
    obtain rfl : z = -(k : Int) := by omega
    by_cases h0 : k = 0
    · subst h0
      exact spells_natural (by decide)
    · exact spells_negative h0 (by omega)

/-! ## Lists -/

theorem nextItem_more (hgap : IsGap gap) (hw : ∃ c t, w = c :: t ∧ isSpace c = false ∧ c ≠ ']')
    (r : List Char) :
    nextItem true (gap ++ (w ++ r)) = .ok (.more (w ++ r)) ∧
      nextItem false (',' :: (gap ++ (w ++ r))) = .ok (.more (w ++ r)) := by
  obtain ⟨c, t, rfl, hc, hclose⟩ := hw
  constructor
  · rw [nextItem, List.cons_append, skipSpace_gap_cons hgap hc]
    simp only [if_neg hclose, if_true]
  · rw [nextItem, skipSpace_cons (by decide), List.cons_append]
    simp only [if_neg (show ',' ≠ ']' by decide), Bool.false_eq_true, if_false, if_true,
      skipSpace_gap_cons hgap hc]
    split
    · next h => cases h
    · next h => exact absurd (List.cons.inj h).1 hclose
    · rfl

theorem nextItem_done (htail : IsGap tail) (isFirst : Bool) (r : List Char) :
    nextItem isFirst (tail ++ ']' :: r) = .ok (.done r) := by
  rw [nextItem, skipSpace_gap_cons htail (by decide)]
  rfl

theorem readItems_of_done {item : Reader Data} {isFirst : Bool} {acc : List Data}
    (h : nextItem isFirst s = .ok (.done r)) :
    readItems item isFirst acc s = .ok (acc.reverse, r) := by
  rw [readItems]
  split <;> simp_all

theorem readItems_of_more {item : Reader Data} {isFirst : Bool} {acc : List Data} {t : List Char}
    (h : nextItem isFirst s = .ok (.more t)) (hitem : item.run t = .ok (d, r)) :
    readItems item isFirst acc s = readItems item false (d :: acc) r := by
  rw [readItems]
  split
  · simp_all
  · simp_all
  · next t' ht =>
    obtain rfl : t = t' := by rw [h] at ht; cases ht; rfl
    split <;> simp_all

variable {ds : List Data} {write : Data → List Char}

/-- What stands behind an item does not go on with a number. -/
theorem endsNumber_further {α : Type u} {write : α → List Char} (as : List α)
    (hs : EndsNumber s) : EndsNumber ((as.flatMap fun a => ',' :: (gap ++ write a)) ++ s) := by
  cases as with
  | nil => exact hs
  | cons a as => exact endsNumber_cons.2 (by decide)

theorem readItems_further (hgap : IsGap gap) (htail : IsGap tail)
    (hds : ∀ d ∈ ds, Spells n (write d) d) (acc : List Data) (r : List Char) :
    readItems (valueReader n) false acc
        ((ds.flatMap fun d => ',' :: (gap ++ write d)) ++ (tail ++ ']' :: r)) =
      .ok (acc.reverse ++ ds, r) := by
  have hend : EndsNumber (tail ++ ']' :: r) :=
    endsNumber_gap_append htail (endsNumber_cons.2 (by decide))
  induction ds generalizing acc with
  | nil => rw [List.append_nil]; exact readItems_of_done (nextItem_done htail false r)
  | cons d ds ih =>
    obtain ⟨hd, hds⟩ := List.forall_mem_cons.1 hds
    simp only [List.flatMap_cons, List.cons_append, List.append_assoc]
    rw [readItems_of_more (nextItem_more hgap hd.begins _).2
      (hd.run _ (endsNumber_further ds hend)), ih hds, List.reverse_cons, List.append_assoc,
      List.singleton_append]

theorem readItems_separated (hgap : IsGap gap) (htail : IsGap tail)
    (hds : ∀ d ∈ ds, Spells n (write d) d) (r : List Char) :
    readItems (valueReader n) true [] (separated gap write ds ++ (tail ++ ']' :: r)) =
      .ok (ds, r) := by
  have hend : EndsNumber (tail ++ ']' :: r) :=
    endsNumber_gap_append htail (endsNumber_cons.2 (by decide))
  cases ds with
  | nil => exact readItems_of_done (nextItem_done htail true r)
  | cons d ds =>
    obtain ⟨hd, hds⟩ := List.forall_mem_cons.1 hds
    simp only [separated, List.append_assoc]
    rw [readItems_of_more (nextItem_more hgap hd.begins _).1
      (hd.run _ (endsNumber_further ds hend)), readItems_further hgap htail hds]
    rfl

theorem spells_list (hgap : IsGap gap) (htail : IsGap tail)
    (hds : ∀ d ∈ ds, Spells n (write d) d) :
    Spells (n + 1) ('[' :: (separated gap write ds ++ tail ++ [']'])) (.list ds) where
  begins := ⟨_, _, rfl, by decide, by decide⟩
  run r _ := by
    have hitems := readItems_separated hgap htail hds r
    simp only [List.cons_append, List.append_assoc, List.nil_append]
    rw [run_valueReader_succ (by decide)]
    simp only [readValue, hitems, mapValue]

/-! ## Records -/

theorem nextMember_more (hgap : IsGap gap) (r : List Char) :
    nextMember true (gap ++ '"' :: r) = .ok (.more r) ∧
      nextMember false (',' :: (gap ++ '"' :: r)) = .ok (.more r) := by
  constructor
  · rw [nextMember, skipSpace_gap_cons hgap (by decide)]
    rfl
  · rw [nextMember, skipSpace_cons (by decide)]
    simp only [if_neg (show ',' ≠ '\x7d' by decide), Bool.false_eq_true, if_false, if_true,
      skipSpace_gap_cons hgap (show isSpace '"' = false by decide)]

theorem nextMember_done (htail : IsGap tail) (isFirst : Bool) (r : List Char) :
    nextMember isFirst (tail ++ '\x7d' :: r) = .ok (.done r) := by
  rw [nextMember, skipSpace_gap_cons htail (by decide)]
  rfl

theorem readName_writeText (name : String) (r : List Char) :
    readName (name.toList.flatMap writeChar ++ '"' :: ':' :: r) = .ok (name, r) := by
  have hcolon : readColon (':' :: r) = .ok r := by
    rw [readColon, skipSpace_cons (by decide)]
    rfl
  simp only [readName, readText_writeText, hcolon]

theorem readMembers_of_done {value : Reader Data} {isFirst : Bool} {acc : List (String × Data)}
    (h : nextMember isFirst s = .ok (.done r)) :
    readMembers value isFirst acc s = .ok (acc.reverse, r) := by
  rw [readMembers]
  split <;> simp_all

theorem readMembers_of_more {value : Reader Data} {isFirst : Bool} {acc : List (String × Data)}
    {name : String} {t u : List Char} (h : nextMember isFirst s = .ok (.more t))
    (hname : readName t = .ok (name, u)) (hvalue : value.run u = .ok (d, r)) :
    readMembers value isFirst acc s = readMembers value false ((name, d) :: acc) r := by
  rw [readMembers]
  split
  · simp_all
  · simp_all
  · next t' ht =>
    obtain rfl : t = t' := by rw [h] at ht; cases ht; rfl
    split
    · simp_all
    · next name' u' hu =>
      obtain ⟨rfl, rfl⟩ : name = name' ∧ u = u' := by rw [hname] at hu; cases hu; exact ⟨rfl, rfl⟩
      split <;> simp_all

variable {m : String × Data} {ms : List (String × Data)} {pad : List Char}

theorem writeMember_append (m : String × Data) (r : List Char) :
    writeMember pad write m ++ r =
      '"' :: (m.1.toList.flatMap writeChar ++ '"' :: ':' :: (pad ++ (write m.2 ++ r))) := by
  simp only [writeMember, writeText, List.cons_append, List.append_assoc, List.nil_append]

/-- A member is read alike behind the opening bracket and behind a comma. -/
theorem readMembers_writeMember (hgap : IsGap gap) (hpad : IsGap pad)
    (hm : Spells n (write m.2) m.2) (hr : EndsNumber r) (acc : List (String × Data)) :
    readMembers (valueReader n) true acc (gap ++ (writeMember pad write m ++ r)) =
        readMembers (valueReader n) false (m :: acc) r ∧
      readMembers (valueReader n) false acc (',' :: (gap ++ (writeMember pad write m ++ r))) =
        readMembers (valueReader n) false (m :: acc) r := by
  have hvalue := (run_valueReader_gap n hpad _).trans (hm.run r hr)
  rw [writeMember_append]
  exact ⟨readMembers_of_more (nextMember_more hgap _).1 (readName_writeText _ _) hvalue,
    readMembers_of_more (nextMember_more hgap _).2 (readName_writeText _ _) hvalue⟩

theorem readMembers_further (hgap : IsGap gap) (hpad : IsGap pad) (htail : IsGap tail)
    (hms : ∀ m ∈ ms, Spells n (write m.2) m.2) (acc : List (String × Data)) (r : List Char) :
    readMembers (valueReader n) false acc
        ((ms.flatMap fun m => ',' :: (gap ++ writeMember pad write m)) ++ (tail ++ '\x7d' :: r)) =
      .ok (acc.reverse ++ ms, r) := by
  have hend : EndsNumber (tail ++ '\x7d' :: r) :=
    endsNumber_gap_append htail (endsNumber_cons.2 (by decide))
  induction ms generalizing acc with
  | nil => rw [List.append_nil]; exact readMembers_of_done (nextMember_done htail false r)
  | cons m ms ih =>
    obtain ⟨hm, hms⟩ := List.forall_mem_cons.1 hms
    simp only [List.flatMap_cons, List.cons_append, List.append_assoc]
    rw [(readMembers_writeMember hgap hpad hm (endsNumber_further ms hend) acc).2, ih hms,
      List.reverse_cons, List.append_assoc, List.singleton_append]

theorem readMembers_separated (hgap : IsGap gap) (hpad : IsGap pad) (htail : IsGap tail)
    (hms : ∀ m ∈ ms, Spells n (write m.2) m.2) (r : List Char) :
    readMembers (valueReader n) true []
        (separated gap (writeMember pad write) ms ++ (tail ++ '\x7d' :: r)) = .ok (ms, r) := by
  have hend : EndsNumber (tail ++ '\x7d' :: r) :=
    endsNumber_gap_append htail (endsNumber_cons.2 (by decide))
  cases ms with
  | nil => exact readMembers_of_done (nextMember_done htail true r)
  | cons m ms =>
    obtain ⟨hm, hms⟩ := List.forall_mem_cons.1 hms
    simp only [separated, List.append_assoc]
    rw [(readMembers_writeMember hgap hpad hm (endsNumber_further ms hend) []).1,
      readMembers_further hgap hpad htail hms]
    rfl

theorem spells_record (hgap : IsGap gap) (hpad : IsGap pad) (htail : IsGap tail)
    (hms : ∀ m ∈ ms, Spells n (write m.2) m.2) :
    Spells (n + 1) ('\x7b' :: (separated gap (writeMember pad write) ms ++ tail ++ ['\x7d']))
      (.record ms) where
  begins := ⟨_, _, rfl, by decide, by decide⟩
  run r _ := by
    have hmembers := readMembers_separated hgap hpad htail hms r
    simp only [List.cons_append, List.append_assoc, List.nil_append]
    rw [run_valueReader_succ (by decide)]
    simp only [readValue, hmembers, mapValue]

/-! ## All values -/

/-- What is written on one line is read back. -/
theorem spells_compact (h : Spellable n d) : Spells n (compact d) d := by
  induction h with
  | null => exact spells_null
  | boolean b => exact spells_boolean b
  | integer hlow hhigh => exact spells_integer hlow hhigh
  | text t => exact spells_text t
  | list _ ih =>
    have hlist := spells_list isGap_nil isGap_nil ih
    rwa [compact, compactItems_eq, ← List.append_nil (separated _ _ _)]
  | record _ ih =>
    have hrecord := spells_record isGap_nil isGap_nil isGap_nil ih
    rwa [compact, compactMembers_eq, ← List.append_nil (separated _ _ _)]

/-- What is written on many lines is read back, at whatever level it begins. -/
theorem spells_pretty (h : Spellable n d) (level : Nat) : Spells n (pretty level d) d := by
  induction h generalizing level with
  | null => exact spells_null
  | boolean b => exact spells_boolean b
  | integer hlow hhigh => exact spells_integer hlow hhigh
  | text t => exact spells_text t
  | @list n ds _ ih =>
    cases ds with
    | nil =>
      have hempty : ∀ d ∈ ([] : List Data), Spells n (compact d) d := by simp
      exact spells_list isGap_nil isGap_nil hempty
    | cons d ds =>
      rw [pretty, prettyItems_eq]
      exact spells_list (isGap_newLine _) (isGap_newLine _) fun e he => ih e he _
  | @record n ms _ ih =>
    cases ms with
    | nil =>
      have hempty : ∀ m ∈ ([] : List (String × Data)), Spells n (compact m.2) m.2 := by simp
      exact spells_record isGap_nil isGap_nil isGap_nil hempty
    | cons m ms =>
      rw [pretty, prettyMembers_eq]
      exact spells_record (isGap_newLine _) (fun c hc => by simp_all [isSpace]) (isGap_newLine _)
        fun e he => ih e he _

/-- A text that spells something, alone but for white space behind it. -/
theorem Spells.read (h : Spells maxDepth w d) (htail : IsGap tail) : read (w ++ tail) = .ok d := by
  have hend := endsNumber_gap_append htail endsNumber_nil
  rw [List.append_nil] at hend
  simp only [Json.read, readFront, h.run _ hend, readEnd_gap htail]

theorem read_compactText (h : Spellable maxDepth d) : read (compactText d).toList = .ok d := by
  have hread := (spells_compact h).read isGap_nil
  rwa [List.append_nil, ← String.toList_ofList (l := compact d)] at hread

theorem read_prettyText (h : Spellable maxDepth d) : read (prettyText d).toList = .ok d := by
  have hread := (spells_pretty h 0).read isGap_nil
  rwa [List.append_nil, ← String.toList_ofList (l := pretty 0 d)] at hread

/-- A line feed behind the text is passed over. -/
theorem read_prettyText_line (h : Spellable maxDepth d) :
    read (prettyText d ++ "\n").toList = .ok d := by
  rw [String.toList_append, prettyText, String.toList_ofList]
  exact (spells_pretty h 0).read (isGap_newLine 0)

end Discussion.Json
