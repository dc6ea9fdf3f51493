import Discussion.Proofs.Data.Members
import Discussion.Proofs.Toml.Texts
import Discussion.Toml.Reader

/-!
# Written tables

A list of tables is read back as the list under its name, if all names can stand without quotation
marks and no table has a name twice.

* `Members.repeated name items`: what the reader has kept when it has read the tables `items`, the
  latest first.

* `Members.LeadsTo header place`: to which table the lines under a header belong.

The reader is followed line by line. Each line of a member adds that member to the table to which the
line belongs (`readLines_members`), and each header begins a table (`readLines_table`).

Results:
1. `read_writeTables`, `read_writeMembers`: the written tables are read back.
2. `exists_writeTables`: they can be written if their integers fit signed words.
-/

namespace Discussion.Toml

open Text

variable {s t w r ds : List Char} {c d : Char} {name key : String} {n : Nat} {v : Value}

/-! ## Integers -/

theorem readMark_of_digits (hs : ∀ c ∈ s, c.isDigit) (hd : d.isDigit = false) :
    readMark d s = none := by
  cases s with
  | nil => rfl
  | cons c s =>
    have hne : c ≠ d := by
      rintro rfl
      simp [hs c (List.mem_cons_self ..)] at hd
    rw [readMark, if_neg hne]

theorem bind_readFixed_readMark (hs : ∀ c ∈ s, c.isDigit) (hd : d.isDigit = false) (n : Nat) :
    ((readFixed n s).bind fun x => readMark d x.2) = none := by
  rw [readFixed]
  split
  · exact readMark_of_digits (fun c hc => hs c (List.mem_of_mem_drop hc)) hd
  · rfl

theorem isMoment_of_digits (hs : ∀ c ∈ s, c.isDigit) : isMoment s = false := by
  have hdate : readDate s = none := by
    have h := bind_readFixed_readMark (d := '-') hs (by decide) 4
    unfold readDate
    cases hfixed : readFixed 4 s with
    | none => rfl
    | some x =>
      rw [hfixed] at h
      simp only [Option.bind_some] at h
      simp [h]
  have htime : readTime s = none := by
    have h := bind_readFixed_readMark (d := ':') hs (by decide) 2
    unfold readTime
    cases hfixed : readFixed 2 s with
    | none => rfl
    | some x =>
      rw [hfixed] at h
      simp only [Option.bind_some] at h
      simp [h]
  simp [isMoment, hdate, htime]

theorem isMoment_minus (s : List Char) : isMoment ('-' :: s) = false := by
  have hfixed (n : Nat) : readFixed (n + 1) ('-' :: s) = none := by simp [readFixed]
  have hdate : readDate ('-' :: s) = none := by rw [readDate, hfixed]; rfl
  have htime : readTime ('-' :: s) = none := by rw [readTime, hfixed]; rfl
  simp [isMoment, hdate, htime]

theorem ungroup_of_digits (hne : ds ≠ []) (hds : ∀ c ∈ ds, c.isDigit) :
    ungroup Char.isDigit ds = some ds := by
  induction ds with
  | nil => exact absurd rfl hne
  | cons c ds ih =>
    obtain ⟨hc, hds⟩ := List.forall_mem_cons.1 hds
    cases ds with
    | nil => rw [ungroup, if_pos hc]
    | cons d ds =>
      have hunder : d ≠ '_' := by
        rintro rfl
        exact absurd (hds _ (List.mem_cons_self ..)) (by decide)
      rw [ungroup, if_pos hc, ih (List.cons_ne_nil _ _) hds, Option.map_some]
      exact hunder

theorem wholeDigits?_of_isNumeral (hds : IsNumeral ds) : wholeDigits? ds = some ds := by
  rw [wholeDigits?, ungroup_of_digits hds.nonempty hds.digits]
  split
  · next h => exact absurd (hds.zero _ (Option.some.inj h)) (List.cons_ne_nil _ _)
  · rfl

theorem unsign_of_digits (hds : ∀ c ∈ ds, c.isDigit) : unsign ds = (false, ds) := by
  unfold unsign
  split
  · exact absurd (hds _ (List.mem_cons_self ..)) (by decide)
  · exact absurd (hds _ (List.mem_cons_self ..)) (by decide)
  · rfl

theorem integer?_of_unsign {negative : Bool} (hs : ∀ c d t, s = c :: d :: t → d.isDigit)
    (h : unsign s = (negative, ds)) (hds : IsNumeral ds) :
    integer? s = fitting? (if negative then -(decimalValue ds : Int) else decimalValue ds) := by
  unfold integer?
  split
  · exact absurd (hs _ _ _ rfl) (by decide)
  · exact absurd (hs _ _ _ rfl) (by decide)
  · exact absurd (hs _ _ _ rfl) (by decide)
  · simp only [h, wholeDigits?_of_isNumeral hds, Option.bind_eq_bind, Option.bind_some]

theorem integer?_of_isNumeral (hds : IsNumeral ds) : integer? ds = fitting? (decimalValue ds) := by
  have hsecond : ∀ c d t, ds = c :: d :: t → d.isDigit := by
    rintro c d t rfl
    exact hds.digits d (by simp)
  rw [integer?_of_unsign hsecond (unsign_of_digits hds.digits) hds, if_neg Bool.false_ne_true]

theorem integer?_minus (hds : IsNumeral ds) :
    integer? ('-' :: ds) = fitting? (-(decimalValue ds : Int)) := by
  have hsecond : ∀ c d t, '-' :: ds = c :: d :: t → d.isDigit := by
    rintro c d t h
    exact hds.digits d (by simp [(List.cons.inj h).2])
  have hsigned : unsign ('-' :: ds) = (true, ds) := rfl
  rw [integer?_of_unsign hsecond hsigned hds, if_pos rfl]

theorem scalar?_of_integer? (hword : s ≠ ['t', 'r', 'u', 'e'] ∧ s ≠ ['f', 'a', 'l', 's', 'e'])
    (hmoment : isMoment s = false) (h : integer? s = some v) : scalar? s = some v := by
  unfold scalar?
  split
  · exact absurd rfl hword.1
  · exact absurd rfl hword.2
  · simp [hmoment, h]

/-- The digits of an integer are one run, and the run stands for the integer. -/
theorem scalar?_toString {z : Int} (hz : Data.fitsSigned z) :
    (∀ c ∈ (toString z).toList, isScalar c) ∧ scalar? (toString z).toList = some (.integer z) ∧
      (toString z).toList ≠ [] := by
  have hdigit {c : Char} (hc : c.isDigit) : isScalar c := by
    simp [isScalar, Char.isAlphanum, hc]
  have hvalue (k : Nat) : decimalValue (Nat.toDigits 10 k) = k := valueOfDigits_toDigits k
  rcases Int.le_total 0 z with hle | hle
  · obtain ⟨k, rfl⟩ := Int.eq_ofNat_of_zero_le hle
    have hnumeral := isNumeral_toDigits k
    rw [toList_toString_natCast]
    refine ⟨fun c hc => hdigit (hnumeral.digits c hc), ?_, hnumeral.nonempty⟩
    refine scalar?_of_integer? ⟨?_, ?_⟩ (isMoment_of_digits hnumeral.digits) ?_
    · intro h
      exact absurd (hnumeral.digits 't' (h ▸ by simp)) (by decide)
    · intro h
      exact absurd (hnumeral.digits 'f' (h ▸ by simp)) (by decide)
    · rw [integer?_of_isNumeral hnumeral, hvalue, fitting?, if_pos hz]
  · obtain ⟨k, hk⟩ := Int.eq_ofNat_of_zero_le (Int.neg_nonneg.2 hle)
    obtain rfl : z = -(k : Int) := by omega
    have hnumeral := isNumeral_toDigits k
    by_cases h0 : k = 0
    · subst h0
      exact ⟨List.all_eq_true.1 rfl, rfl, by decide⟩
    · rw [toList_toString_neg h0]
      refine ⟨List.forall_mem_cons.2 ⟨by decide, fun c hc => hdigit (hnumeral.digits c hc)⟩, ?_,
        List.cons_ne_nil _ _⟩
      refine scalar?_of_integer? ⟨nofun, nofun⟩ (isMoment_minus _) ?_
      rw [integer?_minus hnumeral, hvalue, fitting?, if_pos hz]

theorem splitRun_append (hs : ∀ c ∈ s, isScalar c) (hr : EndsLine r) :
    splitRun (s ++ r) = (s, r) := by
  have hstop : Stops isScalar r := hr.stops (by decide)
  simp only [splitRun, takeWhile_append hs hstop, dropWhile_append hs hstop]
  cases hr <;> rfl

/-! ## Values -/

theorem run_valueReader_of_readValue {x : Value × List Char}
    (h : ∀ inner, readValue inner s = some x) : (valueReader n).run s = some x := by
  cases n with
  | zero => exact h none
  | succ n => exact h (some (valueReader n))

/-- What is written for a value on the line of its key is read back. -/
theorem run_writeAtom {d : Data} (h : writeAtom? d = some w) :
    (∃ c t, w = c :: t ∧ isBlank c = false) ∧
      ∃ v, v.toData = d ∧ ∀ n r, EndsLine r → (valueReader n).run (w ++ r) = some (v, r) := by
  unfold writeAtom? at h
  split at h
  · next z =>
    split at h
    · next hz =>
      cases h
      obtain ⟨hrun, hscalar, hne⟩ := scalar?_toString hz
      generalize (toString z).toList = w at hrun hscalar hne
      cases w with
      | nil => exact absurd rfl hne
      | cons c w =>
        have hc := hrun c (List.mem_cons_self ..)
        have hnot {d : Char} (hd : isScalar d = false) : c ≠ d := by
          rintro rfl
          simp [hc] at hd
        refine ⟨⟨c, w, rfl, ?_⟩, .integer z, by rw [Value.toData],
          fun n r hr => run_valueReader_of_readValue fun inner => ?_⟩
        · simp [isBlank, hnot (show isScalar ' ' = false by decide),
            hnot (show isScalar '\t' = false by decide)]
        · rw [List.cons_append, readValue, readValueAt,
            if_neg (not_or.2 ⟨hnot (by decide), hnot (by decide)⟩), if_neg (hnot (by decide)),
            if_neg (hnot (by decide)), if_pos hc, ← List.cons_append, splitRun_append hrun hr, hscalar]
          rfl
    · cases h
  · next t =>
    cases h
    obtain ⟨mark, w, hw, hmark, hread⟩ := readText_writeText t
    rw [hw]
    refine ⟨⟨mark, w, rfl, ?_⟩, .text t, by rw [Value.toData],
      fun n r hr => run_valueReader_of_readValue fun inner => ?_⟩
    · rcases hmark with rfl | rfl <;> decide
    · rw [List.cons_append, readValue, readValueAt, if_pos hmark, hread r hr, Option.map_some]
  · cases h

/-! ## Blanks and names -/

theorem skipBlanks_cons (hc : isBlank c = false) : skipBlanks (c :: s) = c :: s :=
  List.dropWhile_cons_of_neg (Bool.eq_false_iff.1 hc)

theorem skipTail_cons (hc : isBlank c = false) (hsharp : c ≠ '#') : skipTail (c :: s) = c :: s := by
  rw [skipTail, skipBlanks_cons hc]
  unfold skipComment
  split
  · next h => exact absurd (List.cons.inj h).1 hsharp
  · rfl

theorem skipLines_lineFeed (s : List Char) : skipLines ('\n' :: s) = skipLines s := by
  rw [skipLines]
  rfl

theorem skipLines_cons (hc : isBlank c = false) (hsharp : c ≠ '#') (hfeed : c ≠ '\n')
    (hreturn : c ≠ '\r') : skipLines (c :: s) = c :: s := by
  rw [skipLines]
  split
  · next h =>
    rw [skipTail_cons hc hsharp, readLineFeed_of_ne hfeed hreturn] at h
    cases h
  · exact skipTail_cons hc hsharp

/-- A name that stands without quotation marks. -/
structure IsBareName (name : String) : Prop where
  nonempty : name.toList ≠ []
  bare : ∀ c ∈ name.toList, isBare c

instance (name : String) : Decidable (IsBareName name) :=
  decidable_of_iff (name.toList ≠ [] ∧ name.toList.all isBare)
    ⟨fun h => ⟨h.1, List.all_eq_true.1 h.2⟩, fun h => ⟨h.nonempty, List.all_eq_true.2 h.bare⟩⟩

theorem IsBareName.exists_cons (h : IsBareName name) :
    ∃ c s, name.toList = c :: s ∧ ∀ d, isBare d = false → c ≠ d := by
  obtain ⟨nonempty, bare⟩ := h
  cases hs : name.toList with
  | nil => exact absurd hs nonempty
  | cons c s =>
    refine ⟨c, s, rfl, ?_⟩
    rintro d hd rfl
    simp [bare c (by simp [hs])] at hd

/-- A name is neither blank nor the beginning of a comment or of the end of a line. -/
theorem IsBareName.skip (h : IsBareName name) (t : List Char) :
    skipBlanks (name.toList ++ t) = name.toList ++ t ∧
      skipLines (name.toList ++ t) = name.toList ++ t := by
  obtain ⟨c, s, hs, hc⟩ := h.exists_cons
  have hblank : isBlank c = false := by simp [isBlank, hc ' ' (by decide), hc '\t' (by decide)]
  rw [hs, List.cons_append]
  exact ⟨skipBlanks_cons hblank,
    skipLines_cons hblank (hc _ (by decide)) (hc _ (by decide)) (hc _ (by decide))⟩

theorem readPart_bare (hname : IsBareName name) (hr : Stops isBare r) :
    readPart (name.toList ++ r) = some (name, r) := by
  obtain ⟨c, s, hs, hc⟩ := hname.exists_cons
  unfold readPart
  split
  · next h =>
    rw [hs] at h
    exact absurd (List.cons.inj h).1 (hc _ (by decide))
  · next h =>
    rw [hs] at h
    exact absurd (List.cons.inj h).1 (hc _ (by decide))
  · rw [dropWhile_append hname.bare hr, takeWhile_append hname.bare hr]
    simp only [hs]
    rw [← hs, String.ofList_toList]

theorem readKey_bare (hname : IsBareName name) (hr : Stops isBare r)
    (hdot : ∀ t, skipBlanks r ≠ '.' :: t) :
    readKey (name.toList ++ r) = some (⟨[], name⟩, skipBlanks r) := by
  have hblank := (hname.skip r).1
  have hnames : readNames [] (name.toList ++ r) = some ([name], skipBlanks r) := by
    rw [readNames]
    split
    · next h =>
      rw [hblank, readPart_bare hname hr] at h
      cases h
    · next h =>
      rw [hblank, readPart_bare hname hr] at h
      cases h
      split
      · next h => exact absurd h (hdot _)
      · rfl
  rw [readKey, hnames]
  rfl

/-! ## Lines -/

variable {reading reading' : Reading}

theorem readLines_lineFeed (reading : Reading) (s : List Char) :
    readLines reading ('\n' :: s) = readLines reading s := by
  rw [readLines, skipLines_lineFeed, ← readLines]

theorem readLines_nil (reading : Reading) : readLines reading [] = some reading.root := by
  have hskip : skipLines [] = [] := by
    rw [skipLines]
    rfl
  rw [readLines, hskip]

/-- The last line, without a line feed behind it. -/
theorem readLines_of_readLine_nil (hs : skipLines s = s)
    (h : readLine reading s = some (reading', [])) : readLines reading s = some reading'.root := by
  have htail : skipTail [] = [] := rfl
  rw [readLines, hs]
  cases s with
  | nil => exact absurd (length_readLine h) (Nat.not_lt_zero _)
  | cons c s =>
    simp only
    split
    · next h' => rw [h] at h'; cases h'
    · next h' =>
      rw [h] at h'
      cases h'
      rw [htail]

/-- A line, with the line feed behind it. -/
theorem readLines_of_readLine (hs : skipLines s = s)
    (h : readLine reading s = some (reading', '\n' :: r)) :
    readLines reading s = readLines reading' r := by
  have htail : skipTail ('\n' :: r) = '\n' :: r := skipTail_cons (by decide) (by decide)
  rw [readLines, hs]
  cases s with
  | nil => exact absurd (length_readLine h) (Nat.not_lt_zero _)
  | cons c s =>
    simp only
    split
    · next h' => rw [h] at h'; cases h'
    · next h' =>
      rw [h] at h'
      cases h'
      rw [htail]
      rfl

theorem readLine_header (hname : IsBareName name) (reading : Reading) (r : List Char) :
    readLine reading ('[' :: '[' :: (name.toList ++ ']' :: ']' :: '\n' :: r)) =
      (reading.root.declare true [] name).map fun root => (⟨root, [name]⟩, '\n' :: r) := by
  have hkey := readKey_bare (r := ']' :: ']' :: '\n' :: r) hname (stops_cons.2 (by decide)) nofun
  show readHeader true reading _ = _
  rw [readHeader, hkey]
  rfl

theorem readLine_member (hname : IsBareName key) (hw : ∃ c t, w = c :: t ∧ isBlank c = false)
    (hv : (valueReader maxDepth).run (w ++ r) = some (v, r)) (reading : Reading) :
    readLine reading (key.toList ++ ' ' :: '=' :: ' ' :: (w ++ r)) =
      (reading.root.within (Members.put [] key v) reading.header).map fun root =>
        ({ reading with root }, r) := by
  obtain ⟨c, s, hs, hc⟩ := hname.exists_cons
  obtain ⟨d, u, hdu, hd⟩ := hw
  have hkey : readKey (key.toList ++ ' ' :: '=' :: ' ' :: (w ++ r)) =
      some (⟨[], key⟩, '=' :: ' ' :: (w ++ r)) :=
    readKey_bare hname (stops_cons.2 (by decide)) nofun
  have hblank : skipBlanks (' ' :: (w ++ r)) = w ++ r := by
    rw [hdu]
    exact skipBlanks_cons hd
  have hpair : readPair (valueReader maxDepth) (key.toList ++ ' ' :: '=' :: ' ' :: (w ++ r)) =
      some ((⟨[], key⟩, v), r) := by
    simp only [readPair, hkey, hblank, hv]
  unfold readLine
  split
  · next h =>
    rw [hs] at h
    exact absurd (List.cons.inj h).1 (hc _ (by decide))
  · next h =>
    rw [hs] at h
    exact absurd (List.cons.inj h).1 (hc _ (by decide))
  · rw [hpair]

/-! ## Tables -/

namespace Members

theorem alter_of_notMem {ms : Members} (hname : name ∉ ms.map (·.1))
    (change : Option Value → Option Value) :
    alter name change ms = (change none).map fun v => ms ++ [(name, v)] := by
  induction ms with
  | nil => rfl
  | cons m ms ih =>
    obtain ⟨hne, hname⟩ := not_or.1 (mt List.mem_cons.2 hname)
    rw [alter, if_neg (Ne.symm hne), ih hname, Option.map_map]
    rfl

theorem put_of_notMem {ms : Members} (hname : name ∉ ms.map (·.1)) (v : Value) :
    put [] name v ms = some (ms ++ [(name, v)]) := by
  rw [put, alter_of_notMem hname]
  rfl

/-- The lines under the header belong to one table; `place` turns that table into the outermost one. -/
def LeadsTo (header : List String) (place : Members → Members) : Prop :=
  ∀ change ms, within change header (place ms) = (change ms).map place

theorem leadsTo_nil : LeadsTo [] id := by
  intro change ms
  rw [within, Option.map_id, id, id]

/-- The outermost table once the tables `items`, the latest first, have been read under one repeated
header. -/
def repeated (name : String) : List Members → Members
  | [] => []
  | items => [(name, .tables items)]

theorem declare_repeated (name : String) (items : List Members) :
    declare true [] name (repeated name items) = some (repeated name ([] :: items)) := by
  cases items with
  | nil => rfl
  | cons ms items => simp [declare, repeated, alter]

theorem leadsTo_repeated (name : String) (earlier : List Members) :
    LeadsTo [name] fun ms => repeated name (ms :: earlier) := by
  intro change ms
  simp only [within, repeated, alter, if_true, Option.map_map]
  rfl

end Members

open Members

theorem membersToData_cons (name : String) (v : Value) (vs : Members) :
    Value.membersToData ((name, v) :: vs) = (name, v.toData) :: Value.membersToData vs := by
  rw [Value.membersToData]

theorem membersToData_eq_cons_iff {vs : Members} {d : Data} {ms : List (String × Data)} :
    Value.membersToData vs = (name, d) :: ms ↔
      ∃ v vs', vs = (name, v) :: vs' ∧ v.toData = d ∧ Value.membersToData vs' = ms := by
  constructor
  · intro h
    cases vs with
    | nil => rw [Value.membersToData] at h; cases h
    | cons m vs =>
      rw [membersToData_cons] at h
      cases h
      exact ⟨m.2, vs, rfl, rfl, rfl⟩
  · rintro ⟨v, vs', rfl, rfl, rfl⟩
    exact membersToData_cons name v vs'

theorem toData_eq_integer_iff {z : Int} : v.toData = .integer z ↔ v = .integer z := by
  cases v <;> simp [Value.toData]

theorem toData_eq_text_iff {t : String} : v.toData = .text t ↔ v = .text t := by
  cases v <;> simp [Value.toData]

theorem tablesToData_eq (items : List Members) :
    Value.tablesToData items = items.map fun ms => .record (Value.membersToData ms) := by
  induction items with
  | nil => rfl
  | cons ms items ih => rw [Value.tablesToData, ih, List.map_cons]

/-- The lines of members add the members to the table to which they belong. The line feed behind the
last of them may be missing. -/
theorem readLines_members {ms : List (String × Data)} (h : writeMembers? ms = some w)
    (hbare : ∀ m ∈ ms, IsBareName m.1) {inner : Members}
    (hnodup : (inner.map (·.1) ++ ms.map (·.1)).Nodup) :
    ∃ vs, Value.membersToData vs = ms ∧ ∀ header place, LeadsTo header place →
      (∀ r, readLines ⟨place inner, header⟩ (w ++ r) = readLines ⟨place (inner ++ vs), header⟩ r) ∧
        readLines ⟨place inner, header⟩ w.dropLast = some (place (inner ++ vs)) := by
  induction ms generalizing inner w with
  | nil =>
    cases h
    refine ⟨[], rfl, fun header place _ => ⟨fun r => ?_, ?_⟩⟩
    · rw [List.append_nil, List.nil_append]
    · rw [List.append_nil]
      exact readLines_nil _
  | cons m ms ih =>
    obtain ⟨key, d⟩ := m
    obtain ⟨hkey, hbares⟩ := List.forall_mem_cons.1 hbare
    simp only [writeMembers?, Option.bind_eq_bind, Option.bind_eq_some_iff, Option.some.injEq] at h
    obtain ⟨w₁, hw₁, w₂, hw₂, rfl⟩ := h
    obtain ⟨hbegins, v, rfl, hv⟩ := run_writeAtom hw₁
    have hnew : key ∉ inner.map (·.1) := fun hmem =>
      List.nodup_append.1 hnodup |>.2.2 _ hmem _ (List.mem_cons_self ..) rfl
    have hnodup' : ((inner ++ [(key, v)]).map (·.1) ++ ms.map (·.1)).Nodup := by
      simpa using hnodup
    obtain ⟨vs, rfl, hvs⟩ := ih hw₂ hbares hnodup'
    refine ⟨(key, v) :: vs, membersToData_cons key v vs, fun header place hplace => ?_⟩
    obtain ⟨hrest, hlast⟩ := hvs header place hplace
    have hline (r : List Char) (hr : EndsLine r) :
        readLine ⟨place inner, header⟩ (key.toList ++ ' ' :: '=' :: ' ' :: (w₁ ++ r)) =
          some (⟨place (inner ++ [(key, v)]), header⟩, r) := by
      rw [readLine_member hkey hbegins (hv maxDepth r hr), hplace, put_of_notMem hnew]
      rfl
    have hstep (r : List Char) := readLines_of_readLine (hkey.skip _).2 (hline _ (.lineFeed r))
    simp only [List.append_assoc, List.cons_append, List.nil_append] at hstep hrest hlast ⊢
    refine ⟨fun r => by rw [hstep, hrest], ?_⟩
    have hdrop : (key.toList ++ ' ' :: '=' :: ' ' :: (w₁ ++ '\n' :: w₂)).dropLast =
        key.toList ++ ' ' :: '=' :: ' ' :: (w₁ ++ ('\n' :: w₂).dropLast) := by
      have hend : ((key.toList ++ ' ' :: '=' :: ' ' :: w₁) ++ '\n' :: w₂).dropLast =
          (key.toList ++ ' ' :: '=' :: ' ' :: w₁) ++ ('\n' :: w₂).dropLast :=
        List.dropLast_append_of_ne_nil (List.cons_ne_nil _ _)
      rwa [List.append_assoc, List.append_assoc] at hend
    rw [hdrop]
    cases w₂ with
    | nil =>
      rw [← hlast, List.dropLast_nil, readLines_nil]
      exact readLines_of_readLine_nil (hkey.skip _).2 (hline [] .nil)
    | cons c w₂ => rw [List.dropLast_cons_cons, hstep, hlast]

/-- A table with a repeated header, as `writeTables?` writes it. -/
def writeTable? (name : String) (ms : List (String × Data)) : Option (List Char) :=
  (writeMembers? ms).map (['[', '['] ++ name.toList ++ [']', ']', '\n'] ++ ·)

/-- A header begins a table, and the lines below it are the members of that table. -/
theorem readLines_table {ms : List (String × Data)} (hname : IsBareName name)
    (h : writeTable? name ms = some w) (hbare : ∀ m ∈ ms, IsBareName m.1)
    (hnodup : (ms.map (·.1)).Nodup) :
    ∃ vs, Value.membersToData vs = ms ∧ ∀ earlier header r,
      readLines ⟨repeated name earlier, header⟩ (w ++ r) =
        readLines ⟨repeated name (vs :: earlier), [name]⟩ r := by
  obtain ⟨w, hw, rfl⟩ := Option.map_eq_some_iff.1 h
  have hnodup : ((([] : Members).map (·.1)) ++ ms.map (·.1)).Nodup := hnodup
  obtain ⟨vs, hvs, hread⟩ := readLines_members hw hbare hnodup
  refine ⟨vs, hvs, fun earlier header r => ?_⟩
  have hline := readLine_header hname ⟨repeated name earlier, header⟩ (w ++ r)
  rw [declare_repeated, Option.map_some] at hline
  have hskip (t : List Char) : skipLines ('[' :: t) = '[' :: t :=
    skipLines_cons (by decide) (by decide) (by decide) (by decide)
  simp only [List.append_assoc, List.cons_append, List.nil_append]
  rw [readLines_of_readLine (hskip _) hline]
  exact (hread [name] _ (leadsTo_repeated name earlier)).1 r

theorem readLines_tables {tables : List (List (String × Data))} {parts : List (List Char)}
    (hname : IsBareName name)
    (h : List.Forall₂ (fun ms w => writeTable? name ms = some w) tables parts)
    (hbare : ∀ ms ∈ tables, ∀ m ∈ ms, IsBareName m.1)
    (hnodup : ∀ ms ∈ tables, (ms.map (·.1)).Nodup) :
    ∃ items : List Members, items.map Value.membersToData = tables ∧ ∀ earlier header,
      readLines ⟨repeated name earlier, header⟩ (parts.intersperse ['\n']).flatten =
        some (repeated name (items.reverse ++ earlier)) := by
  induction h with
  | nil => exact ⟨[], rfl, fun earlier header => readLines_nil _⟩
  | @cons ms w tables parts hw _ ih =>
    obtain ⟨hbare, hbares⟩ := List.forall_mem_cons.1 hbare
    obtain ⟨hnodup, hnodups⟩ := List.forall_mem_cons.1 hnodup
    obtain ⟨vs, hvs, hread⟩ := readLines_table hname hw hbare hnodup
    obtain ⟨items, hitems, hreads⟩ := ih hbares hnodups
    refine ⟨vs :: items, by rw [List.map_cons, hvs, hitems], fun earlier header => ?_⟩
    have hrest := hreads (vs :: earlier) [name]
    rw [List.reverse_cons, List.append_assoc, List.singleton_append]
    cases parts with
    | nil =>
      have hend := hread earlier header []
      rw [List.append_nil] at hend
      simp only [List.intersperse_singleton, List.flatten_cons, List.flatten_nil, List.append_nil]
      rw [hend]
      exact hrest
    | cons w' parts =>
      simp only [List.intersperse_cons_cons, List.flatten_cons, List.singleton_append]
      rw [hread, readLines_lineFeed]
      exact hrest

/-! ## Whole texts -/

theorem read_cons (hc : c ≠ '\ufeff') (s : List Char) : read (c :: s) = readLines {} (c :: s) := by
  unfold read
  split
  · next h => exact absurd (List.cons.inj h).1 hc
  · rfl

theorem read_of_stops (hs : Stops (· == '\ufeff') s) : read s = readLines {} s := by
  cases s with
  | nil => rfl
  | cons c s =>
    have hc : (c == '\ufeff') = false := hs c rfl
    exact read_cons (beq_eq_false_iff_ne.1 hc) s

theorem stops_writeMembers {ms : List (String × Data)} (h : writeMembers? ms = some w)
    (hbare : ∀ m ∈ ms, IsBareName m.1) : Stops (· == '\ufeff') w := by
  cases ms with
  | nil =>
    cases h
    exact stops_nil
  | cons m ms =>
    simp only [writeMembers?, Option.bind_eq_bind, Option.bind_eq_some_iff, Option.some.injEq] at h
    obtain ⟨w₁, -, w₂, -, rfl⟩ := h
    obtain ⟨c, t, hname, hc⟩ := (hbare m (List.mem_cons_self ..)).exists_cons
    rw [hname]
    exact stops_cons.2 (beq_eq_false_iff_ne.2 (hc _ (by decide)))

/-- Written members are read back, with or without the line feed behind the last of them. -/
theorem read_writeMembers {ms : List (String × Data)} (h : writeMembers? ms = some w)
    (hbare : ∀ m ∈ ms, IsBareName m.1) (hnodup : (ms.map (·.1)).Nodup) :
    (read w).map Value.membersToData = some ms ∧
      (read w.dropLast).map Value.membersToData = some ms := by
  have hstop := stops_writeMembers h hbare
  have hnodup : ((([] : Members).map (·.1)) ++ ms.map (·.1)).Nodup := hnodup
  obtain ⟨vs, rfl, hvs⟩ := readLines_members h hbare hnodup
  obtain ⟨hread, hdrop⟩ := hvs [] id leadsTo_nil
  have hread := hread []
  rw [List.append_nil, readLines_nil] at hread
  rw [read_of_stops hstop, read_of_stops hstop.dropLast]
  exact ⟨congrArg _ hread, congrArg _ hdrop⟩

theorem run_emptyArray (n : Nat) (r : List Char) :
    (valueReader (n + 1)).run ('[' :: ']' :: r) = some (.array [], r) := by
  have hmark : readSpacedMark ']' (']' :: r) = some r := by
    rw [readSpacedMark, skipLines_cons (by decide) (by decide) (by decide) (by decide)]
    exact if_pos rfl
  have hitems : readItems (valueReader n) [] (']' :: r) = some (.array [], r) := by
    rw [readItems, hmark]
    rfl
  exact hitems

/-- A list without tables is written as an empty array. -/
theorem readLines_emptyArray (hname : IsBareName name) :
    readLines {} (name.toList ++ [' ', '=', ' ', '[', ']', '\n']) = some [(name, .array [])] := by
  have hline := readLine_member (w := ['[', ']']) (r := ['\n']) hname ⟨_, _, rfl, by decide⟩
    (run_emptyArray 78 _) {}
  exact (readLines_of_readLine (hname.skip _).2 hline).trans (readLines_nil _)

theorem membersToData_repeated (name : String) {items : List Members} (hitems : items ≠ []) :
    Value.membersToData (repeated name items) =
      [(name, .list (items.reverse.map fun ms => .record (Value.membersToData ms)))] := by
  cases items with
  | nil => exact absurd rfl hitems
  | cons ms items =>
    rw [repeated, membersToData_cons, Value.toData, tablesToData_eq, List.map_reverse]
    · rfl
    · exact nofun

/-- A written list of tables is read back. -/
theorem read_writeTables {tables : List (List (String × Data))} (hname : IsBareName name)
    (h : writeTables? name tables = some s) (hbare : ∀ ms ∈ tables, ∀ m ∈ ms, IsBareName m.1)
    (hnodup : ∀ ms ∈ tables, (ms.map (·.1)).Nodup) :
    (read s).map Value.membersToData = some [(name, .list (tables.map .record))] := by
  cases tables with
  | nil =>
    obtain rfl := Option.some.inj h
    have hread := readLines_emptyArray hname
    obtain ⟨c, u, hs, hc⟩ := hname.exists_cons
    rw [hs] at hread ⊢
    rw [List.cons_append] at hread ⊢
    rw [read_cons (hc _ (by decide)), hread]
    rfl
  | cons ms tables =>
    simp only [writeTables?, Option.bind_eq_bind] at h
    obtain ⟨parts, hparts, hs⟩ := Option.bind_eq_some_iff.1 h
    obtain rfl := Option.some.inj hs
    obtain ⟨items, hitems, hread⟩ :=
      readLines_tables hname (Data.mapM_eq_some_iff.1 hparts) hbare hnodup
    have hread := hread [] []
    rw [List.append_nil] at hread
    have hfront : ∃ u, (parts.intersperse ['\n']).flatten = '[' :: u := by
      obtain ⟨w, parts, hw, -, rfl⟩ := List.forall₂_cons_left_iff.1 (Data.mapM_eq_some_iff.1 hparts)
      obtain ⟨w, -, rfl⟩ := Option.map_eq_some_iff.1 hw
      cases parts <;> exact ⟨_, rfl⟩
    obtain ⟨u, hu⟩ := hfront
    have hne : items.reverse ≠ [] := by
      rintro hnil
      rw [List.reverse_eq_nil_iff.1 hnil] at hitems
      cases hitems
    rw [hu] at hread ⊢
    rw [read_cons (by decide)]
    refine (congrArg (Option.map Value.membersToData) hread).trans ?_
    rw [Option.map_some, membersToData_repeated name hne, List.reverse_reverse, ← hitems,
      List.map_map]
    rfl

/-! ## What can be written -/

theorem writeAtom_natural (n : Nat) : writeAtom? (.integer n) =
    if (n : Int) < Data.signedLimit then some (toString (n : Int)).toList else none := by
  have hlow : -Data.signedLimit ≤ (n : Int) := by unfold Data.signedLimit; omega
  have hfits : Data.fitsSigned n ↔ (n : Int) < Data.signedLimit := by
    rw [Data.fitsSigned, Bool.and_eq_true, decide_eq_true_eq, decide_eq_true_eq]
    exact and_iff_right hlow
  rw [writeAtom?]
  exact if_congr hfits rfl rfl

theorem exists_writeMembers {ms : List (String × Data)} (h : ∀ m ∈ ms, ∃ w, writeAtom? m.2 = some w) :
    ∃ w, writeMembers? ms = some w := by
  induction ms with
  | nil => exact ⟨[], rfl⟩
  | cons m ms ih =>
    obtain ⟨⟨w₁, hw₁⟩, hms⟩ := List.forall_mem_cons.1 h
    obtain ⟨w₂, hw₂⟩ := ih hms
    simp only [writeMembers?, hw₁, hw₂, Option.bind_eq_bind, Option.bind_some]
    exact ⟨_, rfl⟩

theorem exists_writeTables (name : String) {tables : List (List (String × Data))}
    (h : ∀ ms ∈ tables, ∀ m ∈ ms, ∃ w, writeAtom? m.2 = some w) :
    ∃ s, writeTables? name tables = some s := by
  cases tables with
  | nil => exact ⟨_, rfl⟩
  | cons ms tables =>
    obtain ⟨parts, hparts⟩ : ∃ parts, (ms :: tables).mapM (writeTable? name) = some parts := by
      generalize ms :: tables = tables at h
      induction tables with
      | nil => exact ⟨[], rfl⟩
      | cons ms tables ih =>
        obtain ⟨hms, htables⟩ := List.forall_mem_cons.1 h
        obtain ⟨w, hw⟩ := exists_writeMembers hms
        obtain ⟨parts, hparts⟩ := ih htables
        simp [writeTable?, hw, hparts]
    simp only [writeTables?, Option.bind_eq_bind]
    exact ⟨_, Option.bind_eq_some_iff.2 ⟨parts, hparts, rfl⟩⟩

end Discussion.Toml
