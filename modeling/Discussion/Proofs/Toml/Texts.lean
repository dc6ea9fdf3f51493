import Discussion.Proofs.Text.Runs
import Discussion.Toml.Literal
import Discussion.Toml.Writer

/-!
# Written texts

A text is read back from between the marks that were chosen for it, if the line ends behind them.

Between quotation marks any text is read back, since what would not stand for itself is escaped. Between
apostrophes only a text that needs no escapes is. Three marks in a row end a text, and up to two more
marks behind them belong to it; this is why the text may end with marks, but has no three of them.

* `EndsLine r`: nothing follows on the line.

Result: `readText_writeText`.
-/

namespace Discussion.Toml

open Text

variable {acc s t r : List Char} {c d mark : Char}

/-! ## Ends of lines -/

/-- Nothing follows on the line: the text is at its end, or goes on with a line feed. -/
inductive EndsLine : List Char → Prop
  | nil : EndsLine []
  | lineFeed (r : List Char) : EndsLine ('\n' :: r)

theorem EndsLine.stops {p : Char → Bool} (hr : EndsLine r) (hp : p '\n' = false) : Stops p r := by
  cases hr with
  | nil => exact stops_nil
  | lineFeed r => exact stops_cons.2 hp

/-! ## Escapes -/

theorem hexValue?_fourHex :
    (∀ n : Fin 0x20, (fourHex n).length = 4 ∧
        ((fourHex n).mapM hexValue?).map (fun ds => (ds.length, valueOfDigits 16 ds)) = some (4, n.val)) ∧
      (fourHex 0x7f).length = 4 ∧
        ((fourHex 0x7f).mapM hexValue?).map (fun ds => (ds.length, valueOfDigits 16 ds)) =
          some (4, 0x7f) := by
  decide

theorem readCode_fourHex (hc : c < ' ' ∨ c = '\x7f') (r : List Char) :
    readCode 4 (fourHex c.toNat ++ r) = some (c, r) := by
  obtain ⟨hlength, hvalue⟩ : (fourHex c.toNat).length = 4 ∧
      ((fourHex c.toNat).mapM hexValue?).map (fun ds => (ds.length, valueOfDigits 16 ds)) =
        some (4, c.toNat) := by
    rcases hc with hc | rfl
    · exact hexValue?_fourHex.1 ⟨c.toNat, hc⟩
    · exact hexValue?_fourHex.2
  obtain ⟨ds, hds, hpair⟩ := Option.map_eq_some_iff.1 hvalue
  obtain ⟨hlen, hcode⟩ := Prod.mk.inj hpair
  have hvalid : c.toNat.isValidChar := c.valid
  rw [readCode, ← hlength, List.take_left, List.drop_left, hds, hlength]
  simp only [hcode, hlen, hvalid, and_self, if_true, Char.ofNat_toNat]

/-- What is written for a character between quotation marks: an escape, or the character itself, which
then is no mark, no backslash and nothing that would have to be escaped. -/
theorem writeChar_cases (c : Char) :
    (∃ w, writeChar c = '\\' :: w ∧ (∀ r, readEscape (w ++ r) = some (c, r)) ∧
        ∀ r, readContinuation (w ++ r) = none) ∨
      (writeChar c = [c] ∧ c ≠ '"' ∧ c ≠ '\\' ∧ ¬c < ' ' ∧ c ≠ '\x7f') := by
  unfold writeChar
  split
  case h_8 _ _ _ _ _ hquote hslash =>
    split
    · next hc =>
      refine .inl ⟨_, rfl, fun r => ?_, fun r => rfl⟩
      rw [List.cons_append, readEscape, if_pos rfl, readCode_fourHex hc]
    · next hc =>
      obtain ⟨hspace, hdelete⟩ := not_or.1 hc
      exact .inr ⟨rfl, hquote, hslash, hspace, hdelete⟩
  all_goals exact .inl ⟨_, rfl, fun r => rfl, fun r => rfl⟩

theorem isPlain_of_not (hc : ¬c < ' ') (hdelete : c ≠ '\x7f') : isPlain c := by
  have hle : ' ' ≤ c := Char.not_lt.1 hc
  simp [isPlain, hle, hdelete]

/-! ## One line between quotation marks -/

theorem readBasic_writeChar : readBasic acc (writeChar c ++ r) = readBasic (c :: acc) r := by
  rcases writeChar_cases c with ⟨w, hw, hescape, -⟩ | ⟨hw, hquote, hslash, hspace, hdelete⟩
  · rw [hw, List.cons_append, readBasic, if_neg (by decide), if_pos rfl]
    split
    · next h => rw [hescape] at h; cases h
    · next h => rw [hescape] at h; cases h; rfl
  · rw [hw, List.singleton_append, readBasic, if_neg hquote, if_neg hslash,
      if_pos (isPlain_of_not hspace hdelete)]

theorem readBasic_flatMap_writeChar :
    readBasic acc (s.flatMap writeChar ++ '"' :: r) = some (acc.reverse ++ s, r) := by
  induction s generalizing acc with
  | nil => rw [List.flatMap_nil, List.nil_append, readBasic, if_pos rfl, List.append_nil]
  | cons c s ih =>
    rw [List.flatMap_cons, List.append_assoc, readBasic_writeChar, ih, List.reverse_cons,
      List.append_assoc, List.singleton_append]

/-! ## Several lines -/

/-- Two marks more than the three that end a text belong to it, but no third one. -/
theorem readLong_close {k : Nat} (hk : k ≤ 2) (hr : Stops (· == mark) r) :
    readLong mark acc (List.replicate k mark ++ mark :: mark :: mark :: r) =
      some (acc.reverse ++ List.replicate k mark, r) := by
  have hstop (n : Nat) : (r.take n).takeWhile (· == mark) = [] := by
    cases r with
    | nil => rw [List.take_nil]; rfl
    | cons c r =>
      have hc : (c == mark) = false := hr c rfl
      cases n with
      | zero => rfl
      | succ n => exact List.takeWhile_cons_of_neg (Bool.eq_false_iff.1 hc)
  obtain rfl | rfl | rfl : k = 0 ∨ k = 1 ∨ k = 2 := by omega
  all_goals
    simp only [List.replicate_zero, List.replicate_succ, List.nil_append, List.cons_append]
    rw [readLong, if_pos rfl]
    simp [hstop]

/-- A mark that no two others follow stands for itself. -/
theorem readLong_mark (h : s.take 2 ≠ [mark, mark]) :
    readLong mark acc (mark :: s) = readLong mark (mark :: acc) s := by
  rw [readLong, if_pos rfl, if_neg h]

theorem readLong_lineFeed (hmark : mark ≠ '\n') :
    readLong mark acc ('\n' :: s) = readLong mark ('\n' :: acc) s := by
  rw [readLong, if_neg hmark.symm, if_neg (fun h => absurd h.1 (by decide))]
  rfl

theorem readLineFeed_of_ne (hfeed : c ≠ '\n') (hreturn : c ≠ '\r') :
    readLineFeed (c :: s) = none := by
  unfold readLineFeed
  split
  · next h => exact absurd (List.cons.inj h).1 hfeed
  · next h => exact absurd (List.cons.inj h).1 hreturn
  · rfl

theorem readLong_plain (hmark : c ≠ mark) (hslash : ¬(c = '\\' ∧ mark = '"')) (hfeed : c ≠ '\n')
    (hreturn : c ≠ '\r') (hc : isPlain c) :
    readLong mark acc (c :: s) = readLong mark (c :: acc) s := by
  rw [readLong, if_neg hmark, if_neg hslash]
  split
  · next h => rw [readLineFeed_of_ne hfeed hreturn] at h; cases h
  · rw [if_pos hc]

theorem readLong_writeChar : readLong '"' acc (writeChar c ++ r) = readLong '"' (c :: acc) r := by
  rcases writeChar_cases c with ⟨w, hw, hescape, hgoes⟩ | ⟨hw, hquote, hslash, hspace, hdelete⟩
  · rw [hw, List.cons_append, readLong, if_neg (by decide), if_pos ⟨rfl, rfl⟩]
    split
    · next h => rw [hgoes] at h; cases h
    · split
      · next h => rw [hescape] at h; cases h
      · next h => rw [hescape] at h; cases h; rfl
  · have hfeed : c ≠ '\n' := by rintro rfl; exact hspace (by decide)
    have hreturn : c ≠ '\r' := by rintro rfl; exact hspace (by decide)
    rw [hw, List.singleton_append]
    exact readLong_plain hquote (fun h => hslash h.1) hfeed hreturn (isPlain_of_not hspace hdelete)

/-! ### Between quotation marks -/

/-- What is written for a text does not begin with a mark, unless the mark stands for itself. -/
theorem exists_writeLong_cons {marks : Nat} (h : ¬(c = '"' ∧ marks < 2)) :
    ∃ d t, writeLong marks (c :: s) = d :: t ∧ d ≠ '"' := by
  rw [writeLong, if_neg h]
  split
  · next hc => exact ⟨c, _, rfl, by rw [hc]; decide⟩
  · rcases writeChar_cases c with ⟨w, hw, -⟩ | ⟨hw, hquote, -⟩
    · exact ⟨'\\', _, by rw [hw]; rfl, by decide⟩
    · exact ⟨c, _, by rw [hw]; rfl, hquote⟩

/-- Behind a mark that stands for itself no two marks follow, unless the rest of the text is marks. -/
theorem take_writeLong_ne {marks : Nat} (hmarks : marks < 2) (r : List Char)
    (hs : ∀ k, s = List.replicate k '"' → 2 ≤ marks + k) :
    (writeLong (marks + 1) s ++ r).take 2 ≠ ['"', '"'] := by
  cases s with
  | nil => have := hs 0 rfl; omega
  | cons c s =>
    by_cases hc : c = '"' ∧ marks + 1 < 2
    · obtain ⟨rfl, hlt⟩ := hc
      cases s with
      | nil => have := hs 1 rfl; omega
      | cons d s =>
        obtain rfl : marks = 0 := by omega
        obtain ⟨e, t, het, he⟩ : ∃ e t, writeLong 2 (d :: s) = e :: t ∧ e ≠ '"' :=
          exists_writeLong_cons (by omega)
        rw [writeLong, if_pos ⟨rfl, hlt⟩, het]
        simpa using he
    · obtain ⟨d, t, hdt, hd⟩ := exists_writeLong_cons (s := s) hc
      rw [hdt]
      cases t <;> simp [hd]

theorem writeLong_replicate {marks k : Nat} (h : marks + k ≤ 2) :
    writeLong marks (List.replicate k '"') = List.replicate k '"' := by
  induction k generalizing marks with
  | zero => rfl
  | succ k ih => rw [List.replicate_succ, writeLong, if_pos ⟨rfl, by omega⟩, ih (by omega)]

theorem readLong_writeLong {marks : Nat} (hr : Stops (· == '"') r) :
    readLong '"' acc (writeLong marks s ++ '"' :: '"' :: '"' :: r) = some (acc.reverse ++ s, r) := by
  induction s generalizing acc marks with
  | nil => exact readLong_close (k := 0) (by decide) hr
  | cons c s ih =>
    have hstep : acc.reverse ++ c :: s = (c :: acc).reverse ++ s := by simp
    by_cases hquote : c = '"' ∧ marks < 2
    · obtain ⟨rfl, hmarks⟩ := hquote
      -- The end may come early: the text then ends with this mark or with the next one.
      by_cases hall : ∃ k, s = List.replicate k '"' ∧ marks + 1 + k ≤ 2
      · obtain ⟨k, rfl, hk⟩ := hall
        rw [← List.replicate_succ, writeLong_replicate (by omega)]
        exact readLong_close (by omega) hr
      · have hne := take_writeLong_ne hmarks ('"' :: '"' :: '"' :: r) fun k hk => by
          by_contra hlt
          exact hall ⟨k, hk, by omega⟩
        rw [writeLong, if_pos ⟨rfl, hmarks⟩, List.cons_append, readLong_mark hne, ih, hstep]
    · rw [writeLong, if_neg hquote]
      split
      · next hc => rw [hc, List.cons_append, readLong_lineFeed (by decide), ih, ← hc, hstep]
      · rw [List.append_assoc, readLong_writeChar, ih, hstep]

/-! ### Between apostrophes -/

/-- A character that needs no escape stands for itself, or is a line feed. -/
theorem isPlain_or_of_isEscaped (hc : isEscaped c = false) :
    c ≠ '\r' ∧ (c = '\n' ∨ c ≠ '\n' ∧ isPlain c) := by
  by_cases htab : c = '\t'
  · subst htab
    decide
  by_cases hfeed : c = '\n'
  · subst hfeed
    decide
  simp only [isEscaped, Bool.or_eq_false_iff, Bool.and_eq_false_iff, decide_eq_false_iff_not,
    beq_eq_false_iff_ne, not_not, htab, hfeed, or_false] at hc
  refine ⟨?_, .inr ⟨hfeed, isPlain_of_not hc.1 hc.2⟩⟩
  rintro rfl
  exact hc.1 (by decide)

theorem readLong_literal (hplain : ∀ c ∈ s, isEscaped c = false) (hthree : hasThree '\'' s = false)
    (hr : Stops (· == '\'') r) :
    readLong '\'' acc (s ++ '\'' :: '\'' :: '\'' :: r) = some (acc.reverse ++ s, r) := by
  induction s generalizing acc with
  | nil => exact readLong_close (k := 0) (by decide) hr
  | cons c s ih =>
    obtain ⟨hc, hs⟩ := List.forall_mem_cons.1 hplain
    obtain ⟨hfront, hback⟩ := Bool.or_eq_false_iff.1 hthree
    have hstep : acc.reverse ++ c :: s = (c :: acc).reverse ++ s := by simp
    obtain ⟨hreturn, hc⟩ := isPlain_or_of_isEscaped hc
    by_cases hmark : c = '\''
    · subst hmark
      by_cases hall : s = [] ∨ s = ['\'']
      · rcases hall with rfl | rfl
        · exact readLong_close (k := 1) (by decide) hr
        · exact readLong_close (k := 2) (by decide) hr
      · have hne : (s ++ '\'' :: '\'' :: '\'' :: r).take 2 ≠ ['\'', '\''] := by
          cases s with
          | nil => exact absurd (.inl rfl) hall
          | cons d s =>
            cases s with
            | nil => simpa using hall
            | cons e s => simpa using hfront
        rw [List.cons_append, readLong_mark hne, ih hs hback, hstep]
    · rcases hc with rfl | ⟨hfeed, hc⟩
      · rw [List.cons_append, readLong_lineFeed (by decide), ih hs hback, hstep]
      · rw [List.cons_append,
          readLong_plain hmark (fun h => absurd h.2 (by decide)) hfeed hreturn hc, ih hs hback, hstep]

theorem readLiteral_append (hs : ∀ c ∈ s, isLiteral c) (r : List Char) :
    readLiteral (s ++ '\'' :: r) = some (s, r) := by
  have hstop : Stops isLiteral ('\'' :: r) := stops_cons.2 (by decide)
  rw [readLiteral, dropWhile_append hs hstop, takeWhile_append hs hstop]
  rfl

/-! ## All marks -/

/-- A line feed is written behind three marks where the reader would take one of the text for it. -/
theorem skipFirstLineFeed_lead (h : '\n' ∉ s → ∀ c ∈ t.head?, c ≠ '\n' ∧ c ≠ '\r') :
    skipFirstLineFeed (Marks.lead s ++ t) = t := by
  unfold Marks.lead
  split
  · rfl
  · next hs =>
    have ht := h (by simpa using hs)
    cases t with
    | nil => rfl
    | cons c t =>
      obtain ⟨hfeed, hreturn⟩ := ht c rfl
      rw [List.nil_append, skipFirstLineFeed, readLineFeed_of_ne hfeed hreturn]
      rfl

theorem head_writeLong (hs : '\n' ∉ s) (r : List Char) :
    ∀ c ∈ (writeLong 0 s ++ '"' :: r).head?, c ≠ '\n' ∧ c ≠ '\r' := by
  cases s with
  | nil => rintro c ⟨⟩; decide
  | cons d s =>
    obtain ⟨hd, -⟩ := not_or.1 (mt List.mem_cons.2 hs)
    by_cases hquote : d = '"'
    · subst hquote
      rintro c ⟨⟩
      decide
    · rw [writeLong, if_neg (fun h => hquote h.1), if_neg (Ne.symm hd)]
      rcases writeChar_cases d with ⟨w, hw, -⟩ | ⟨hw, -, -, hspace, -⟩
      · rw [hw]
        rintro c ⟨⟩
        decide
      · rw [hw]
        rintro c ⟨⟩
        exact ⟨Ne.symm hd, by rintro rfl; exact hspace (by decide)⟩

theorem head_literal (hs : ∀ c ∈ s, isEscaped c = false) (hfeed : '\n' ∉ s) (r : List Char) :
    ∀ c ∈ (s ++ '\'' :: r).head?, c ≠ '\n' ∧ c ≠ '\r' := by
  cases s with
  | nil => rintro c ⟨⟩; decide
  | cons d s =>
    rintro c ⟨⟩
    have hmem : d ∈ d :: s := List.mem_cons_self ..
    exact ⟨fun h => hfeed (h ▸ hmem), (isPlain_or_of_isEscaped (hs d hmem)).1⟩

namespace Marks

/-- A text is written between apostrophes only if it suits them. -/
theorem suit_ofText (s : List Char) :
    (ofText s = literal → suit s literal) ∧ (ofText s = longLiteral → suit s longLiteral) := by
  unfold ofText
  cases h : [basic, literal, longBasic, longLiteral].find? (suit s) with
  | none =>
    rw [Option.getD_none]
    split <;> exact ⟨nofun, nofun⟩
  | some m =>
    rw [Option.getD_some]
    have hm := List.find?_some h
    exact ⟨fun h => h ▸ hm, fun h => h ▸ hm⟩

end Marks

theorem readText_of_readShort (hshort : t.take 2 ≠ [mark, mark])
    (h : readShort mark t = some (s, r)) : readText mark t = some (String.ofList s, r) := by
  rw [readText, if_neg hshort, h]
  rfl

theorem readText_of_readLong (h : readLong mark [] (skipFirstLineFeed t) = some (s, r)) :
    readText mark (mark :: mark :: t) = some (String.ofList s, r) := by
  have hlong : (mark :: mark :: t).take 2 = [mark, mark] := rfl
  have hdrop : (mark :: mark :: t).drop 2 = t := rfl
  rw [readText, if_pos hlong, hdrop, h]
  rfl

theorem readText_basic (hr : EndsLine r) (s : List Char) :
    readText '"' (s.flatMap writeChar ++ '"' :: r) = some (String.ofList s, r) := by
  refine readText_of_readShort ?_ ?_
  · cases s with
    | nil => cases hr <;> simp
    | cons c s =>
      rw [List.flatMap_cons]
      rcases writeChar_cases c with ⟨w, hw, -⟩ | ⟨hw, hquote, -⟩
      · rw [hw]
        simp
      · rw [hw]
        simp [hquote]
  · rw [readShort, if_pos rfl, readBasic_flatMap_writeChar]
    rfl

theorem readText_literal (hs : Marks.suit s .literal) (hr : EndsLine r) :
    readText '\'' (s ++ '\'' :: r) = some (String.ofList s, r) := by
  simp only [Marks.suit, Bool.not_eq_true', List.any_eq_false, Bool.or_eq_true, not_or,
    Bool.not_eq_true, beq_iff_eq] at hs
  refine readText_of_readShort ?_ ?_
  · cases s with
    | nil => cases hr <;> simp
    | cons c s => simp [(hs c (List.mem_cons_self ..)).2]
  · have hplain : ∀ c ∈ s, isLiteral c := by
      intro c hc
      obtain ⟨⟨hescaped, hfeed⟩, hmark⟩ := hs c hc
      rcases (isPlain_or_of_isEscaped hescaped).2 with h | ⟨-, h⟩
      · exact absurd h hfeed
      · simp [isLiteral, h, hmark]
    rw [readShort, if_neg (by decide), readLiteral_append hplain]

theorem readText_longBasic (hr : EndsLine r) (s : List Char) :
    readText '"' ('"' :: '"' :: (Marks.lead s ++ (writeLong 0 s ++ '"' :: '"' :: '"' :: r))) =
      some (String.ofList s, r) := by
  refine readText_of_readLong ?_
  rw [skipFirstLineFeed_lead fun hs => head_writeLong hs _,
    readLong_writeLong (hr.stops (by decide))]
  rfl

theorem readText_longLiteral (hs : Marks.suit s .longLiteral) (hr : EndsLine r) :
    readText '\'' ('\'' :: '\'' :: (Marks.lead s ++ (s ++ '\'' :: '\'' :: '\'' :: r))) =
      some (String.ofList s, r) := by
  simp only [Marks.suit, Bool.and_eq_true, Bool.not_eq_true', List.any_eq_false,
    Bool.not_eq_true] at hs
  refine readText_of_readLong ?_
  rw [skipFirstLineFeed_lead fun hfeed => head_literal hs.1 hfeed _,
    readLong_literal hs.1 hs.2 (hr.stops (by decide))]
  rfl

/-- A written text is read back, if the line ends behind it. -/
theorem readText_writeText (text : String) : ∃ mark w, writeText text = mark :: w ∧
    (mark = '"' ∨ mark = '\'') ∧
      ∀ r, EndsLine r → readText mark (w ++ r) = some (text, r) := by
  obtain ⟨hliteral, hlong⟩ := Marks.suit_ofText text.toList
  have htext := String.ofList_toList (s := text)
  unfold writeText
  generalize text.toList = s at hliteral hlong htext
  subst htext
  cases hm : Marks.ofText s with
  | basic =>
    refine ⟨'"', s.flatMap writeChar ++ ['"'], rfl, .inl rfl, fun r hr => ?_⟩
    rw [List.append_assoc]
    exact readText_basic hr s
  | literal =>
    refine ⟨'\'', s ++ ['\''], rfl, .inr rfl, fun r hr => ?_⟩
    rw [List.append_assoc]
    exact readText_literal (hliteral hm) hr
  | longBasic =>
    refine ⟨'"', '"' :: '"' :: (Marks.lead s ++ (writeLong 0 s ++ ['"', '"', '"'])),
      by simp [Marks.write], .inl rfl, fun r hr => ?_⟩
    simp only [List.cons_append, List.append_assoc]
    exact readText_longBasic hr s
  | longLiteral =>
    refine ⟨'\'', '\'' :: '\'' :: (Marks.lead s ++ (s ++ ['\'', '\'', '\''])),
      by simp [Marks.write], .inr rfl, fun r hr => ?_⟩
    simp only [List.cons_append, List.append_assoc]
    exact readText_longLiteral (hlong hm) hr

end Discussion.Toml
