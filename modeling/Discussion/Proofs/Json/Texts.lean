import Discussion.Json.Reader
import Discussion.Json.Writer
import Discussion.Proofs.Text.Runs

/-!
# Written texts

A text between quotation marks is read back character by character: what `writeChar` writes for a
character is read as that character, whatever stands behind it.

Result: `readText_writeText`.
-/

namespace Discussion.Json

open Text

variable {acc s r : List Char} {c d : Char}

/-! ## One step of the reader -/

theorem readTextFrom_end : readTextFrom acc ('"' :: r) = .ok (acc.reverse, r) := by
  rw [readTextFrom, if_pos rfl]

theorem readTextFrom_escape (h : readEscape s = .ok (d, r)) :
    readTextFrom acc ('\\' :: s) = readTextFrom (d :: acc) r := by
  rw [readTextFrom, if_neg (by decide), if_pos rfl]
  split
  · next hs => rw [h] at hs; cases hs
  · next hs => rw [h] at hs; cases hs; rfl

theorem readTextFrom_plain (hquote : c ≠ '"') (hslash : c ≠ '\\') (hc : ¬c < ' ') :
    readTextFrom acc (c :: r) = readTextFrom (c :: acc) r := by
  rw [readTextFrom, if_neg hquote, if_neg hslash, if_neg hc]

/-! ## What is written for a character -/

theorem readHex_twoHex {n : Nat} (hn : n < 0x100) (r : List Char) :
    readHex ('0' :: '0' :: (twoHex n ++ r)) = .ok (n, r) := by
  have hzero : hexValue? '0' = some 0 := by decide
  have hhigh := hexValue?_digitChar (show n / 16 < 16 by omega)
  have hlow := hexValue?_digitChar (Nat.mod_lt n (by decide : 0 < 16))
  have hvalue : valueOfDigits 16 [0, 0, n / 16, n % 16] = n := by
    simp only [valueOfDigits, List.foldl_cons, List.foldl_nil]
    omega
  simp only [twoHex, List.cons_append, List.nil_append, readHex, hzero, hhigh, hlow, hvalue]

theorem readEscape_control (hc : c < ' ') (r : List Char) :
    readEscape ('u' :: '0' :: '0' :: (twoHex c.toNat ++ r)) = .ok (c, r) := by
  have hlt : c.toNat < 0x20 := hc
  have htrailing : isTrailing c.toNat = false := by simp [isTrailing]; omega
  have hleading : isLeading c.toNat = false := by simp [isLeading]; omega
  rw [readEscape, if_pos rfl, readCode, readHex_twoHex (by omega)]
  simp only [htrailing, hleading, Bool.false_eq_true, if_false, Char.ofNat_toNat]

theorem readTextFrom_writeChar : readTextFrom acc (writeChar c ++ r) = readTextFrom (c :: acc) r := by
  unfold writeChar
  split
  case h_8 hquote hslash _ _ _ _ _ =>
    split
    · next hc => exact readTextFrom_escape (readEscape_control hc r)
    · next hc => exact readTextFrom_plain hquote hslash hc
  all_goals exact readTextFrom_escape rfl

/-! ## Whole texts -/

theorem readTextFrom_flatMap_writeChar :
    readTextFrom acc (s.flatMap writeChar ++ r) = readTextFrom (s.reverse ++ acc) r := by
  induction s generalizing acc with
  | nil => rfl
  | cons c s ih =>
    rw [List.flatMap_cons, List.append_assoc, readTextFrom_writeChar, ih, List.reverse_cons,
      List.append_assoc, List.singleton_append]

/-- A written text is read back, whatever stands behind its closing mark. -/
theorem readText_writeText (t : String) (r : List Char) :
    readText (t.toList.flatMap writeChar ++ '"' :: r) = .ok (t, r) := by
  have h : readTextFrom [] (t.toList.flatMap writeChar ++ '"' :: r) = .ok (t.toList, r) := by
    rw [readTextFrom_flatMap_writeChar, readTextFrom_end, List.append_nil, List.reverse_reverse]
  simp only [readText, h, String.ofList_toList]

end Discussion.Json
