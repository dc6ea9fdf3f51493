import Mathlib.Algebra.Group.Nat.Defs
import Discussion.Proofs.Data.Members
import Discussion.Proofs.Text.Runs
import Discussion.Proofs.Threading.Lineage
import Discussion.Proofs.Tree.Listing
import Discussion.Report

/-!
# Reading a flat listing

A flat listing shows the depth of a post by the spaces before it. The line of a post begins with a sign that
is no space, so these spaces can be told from those of a subject, and the listing says which texts stand
where in the forest. But a text does not have room for any number of spaces.

* `Forest.HasRoom indent f`: there is room for all indentations.
* `leadingSpaces line`, `unindented line`: the spaces that a line begins with, and what follows them.

Results:
1. `Forest.width_lt_of_first`, `Forest.width_le_of_lines`: a listing breaks off before a width wraps around.
2. `Forest.flatLines?_eq_some_iff`, `Forest.flatLines?_eq_none_iff`: when there is a listing, and which one.
3. `Forest.map_flatLines`: depths and texts come back from the lines.
4. `Forest.flatLines_read_back`: a flat listing determines the forest of the texts.
-/

namespace Discussion

open Text (Stops)

/-- The number of spaces that a line begins with. -/
def leadingSpaces (line : String) : Nat :=
  (line.toList.takeWhile (· == ' ')).length

/-- What follows the spaces that a line begins with. -/
def unindented (line : String) : String :=
  String.ofList (line.toList.dropWhile (· == ' '))

section Lines

variable {text : String}

theorem eq_space_of_mem_replicate {width : Nat} : ∀ c ∈ List.replicate width ' ', (c == ' ') = true := by
  intro c hc
  rw [List.eq_of_mem_replicate hc]
  rfl

theorem leadingSpaces_append (width : Nat) (h : Stops (· == ' ') text.toList) :
    leadingSpaces (String.ofList (List.replicate width ' ') ++ text) = width := by
  rw [leadingSpaces, String.toList_append, String.toList_ofList,
    Text.takeWhile_append eq_space_of_mem_replicate h, List.length_replicate]

theorem unindented_append (width : Nat) (h : Stops (· == ' ') text.toList) :
    unindented (String.ofList (List.replicate width ' ') ++ text) = text := by
  rw [unindented, String.toList_append, String.toList_ofList,
    Text.dropWhile_append eq_space_of_mem_replicate h, String.ofList_toList]

end Lines

theorem Post.head?_summary (p : Post) : p.summary.toList.head? = some '#' := by
  rw [summary, String.append_assoc, String.append_assoc, String.append_assoc, String.toList_append]
  rfl

theorem Post.stops_summary (p : Post) : Stops (· == ' ') p.summary.toList := by
  intro c hc
  rw [p.head?_summary] at hc
  cases hc
  rfl

/-! ## Room -/

theorem Text.spaces?_eq_none_iff {n : Nat} : Text.spaces? n = none ↔ Text.maxSize < n := by
  simp [Text.spaces?]

namespace Forest

variable {f g : Forest Post} {indent : UInt64} {e : Nat × Post} {lines : List String}

/-- A text has room for every indentation of a flat listing. -/
def HasRoom (indent : UInt64) (f : Forest Post) : Prop :=
  ∀ e ∈ f.entries, e.1 * indent.toNat ≤ Text.maxSize

instance (indent : UInt64) (f : Forest Post) : Decidable (f.HasRoom indent) :=
  inferInstanceAs (Decidable (∀ e ∈ f.entries, _))

theorem flatLine?_eq (h : e.1 * indent.toNat < 2 ^ 64) : flatLine? indent e.1 e.2 =
    (Text.spaces? (e.1 * indent.toNat)).map (· ++ e.2.summary) := by
  rw [flatLine?, UInt64.toNat_mul, UInt64.toNat_ofNat', Nat.mod_mul_mod, Nat.mod_eq_of_lt h]

/-- The first indentation that is too wide still fits a word: it is wider by one level than another that
comes before it. -/
theorem width_lt_of_first {before after : List (Nat × Post)} (h : f.entries = before ++ e :: after)
    (hbefore : ∀ e' ∈ before, e'.1 * indent.toNat ≤ Text.maxSize) : e.1 * indent.toNat < 2 ^ 64 := by
  have hindent := indent.toNat_lt
  cases hdepth : e.1 with
  | zero => omega
  | succ d =>
    have hsteady := f.steady_entries
    rw [h, List.map_append, List.map_cons] at hsteady
    obtain ⟨e', he', rfl⟩ := List.mem_map.1 (hsteady.mem_of_lt (Nat.zero_le d) (by omega))
    have hwidth := hbefore e' he'
    rw [Nat.succ_mul]
    rcases Nat.eq_zero_or_pos e'.1 with hroot | hpos
    · rw [hroot, Nat.zero_mul, Nat.zero_add]
      exact hindent
    · have hlevel : indent.toNat ≤ e'.1 * indent.toNat := Nat.le_mul_of_pos_left _ hpos
      unfold Text.maxSize at hwidth
      omega

/-- So as long as there are lines, no indentation is too wide. -/
theorem width_le_of_lines {before after : List (Nat × Post)} (h : f.entries = before ++ after)
    (hlines : ∀ e ∈ before, flatLine? indent e.1 e.2 ≠ none) :
    ∀ e ∈ before, e.1 * indent.toNat ≤ Text.maxSize := by
  by_contra hwide
  push Not at hwide
  obtain ⟨e, earlier, later, rfl, hearlier, hwide⟩ := Threaded.exists_firstWith_iff.2 hwide
  rw [List.append_assoc, List.cons_append] at h
  have hfirst := width_lt_of_first h fun e' he' => Nat.not_lt.1 (hearlier e' he')
  refine hlines e (by simp) ?_
  rw [flatLine?_eq hfirst, Text.spaces?_eq_none_iff.2 hwide, Option.map_none]

theorem flatLines?_of_hasRoom (h : f.HasRoom indent) :
    f.flatLines? indent = some (f.flatLines indent) := by
  refine Data.mapM_eq_some_iff.2 (List.forall₂_map_right_iff.2 (List.forall₂_same.2 fun e he => ?_))
  have hwidth := h e he
  rw [flatLine?_eq (Nat.lt_of_le_of_lt hwidth (by decide)), Text.spaces?, if_pos hwidth, Option.map_some]

theorem flatLines?_eq_none_iff : f.flatLines? indent = none ↔ ¬ f.HasRoom indent := by
  constructor
  · intro hnone hroom
    cases hnone.symm.trans (flatLines?_of_hasRoom hroom)
  · intro hroom
    by_contra hsome
    exact hroom (width_le_of_lines (List.append_nil _).symm fun e he hnone =>
      hsome (Data.mapM_eq_none_iff.2 ⟨e, he, hnone⟩))

/-- There is a flat listing exactly if there is room for it. No indentation is wrong in it. -/
theorem flatLines?_eq_some_iff :
    f.flatLines? indent = some lines ↔ f.HasRoom indent ∧ lines = f.flatLines indent := by
  constructor
  · intro h
    have hroom : f.HasRoom indent := by
      by_contra hno
      cases h.symm.trans (flatLines?_eq_none_iff.2 hno)
    exact ⟨hroom, Option.some.inj (h.symm.trans (flatLines?_of_hasRoom hroom))⟩
  · rintro ⟨hroom, rfl⟩
    exact flatLines?_of_hasRoom hroom

/-! ## Back to the forest -/

/-- The listing of the forest in which each post is replaced by its text. -/
theorem listing_summary (f : Forest Post) :
    Tree.listing 0 (f.roots.map (Tree.relabel Post.summary)) = f.entries.map fun e => (e.1, e.2.summary) := by
  rw [Tree.listing_relabel, ← entries_eq_listing]

/-- The depths and the texts of the posts can be read from the lines. -/
theorem map_flatLines (hindent : 0 < indent.toNat) :
    (f.flatLines indent).map (fun line => (leadingSpaces line / indent.toNat, unindented line)) =
      Tree.listing 0 (f.roots.map (Tree.relabel Post.summary)) := by
  rw [flatLines, listing_summary, List.map_map]
  refine List.map_congr_left fun e _ => Prod.ext ?_ (unindented_append _ e.2.stops_summary)
  show leadingSpaces _ / indent.toNat = e.1
  rw [leadingSpaces_append _ e.2.stops_summary, Nat.mul_div_cancel _ hindent]

/-- Nothing but the texts and where they stand counts for a flat listing. -/
theorem flatLines?_congr
    (h : f.roots.map (Tree.relabel Post.summary) = g.roots.map (Tree.relabel Post.summary)) :
    f.flatLines? indent = g.flatLines? indent := by
  have hlines (f : Forest Post) : f.flatLines? indent =
      (Tree.listing 0 (f.roots.map (Tree.relabel Post.summary))).mapM fun e =>
        (Text.spaces? (UInt64.ofNat e.1 * indent).toNat).map (· ++ e.2) := by
    rw [listing_summary, List.mapM_map]
    rfl
  rw [hlines, hlines, h]

theorem flatLines?_eq_iff (hindent : 0 < indent.toNat) (hlines : f.flatLines? indent = some lines) :
    g.flatLines? indent = some lines ↔
      g.roots.map (Tree.relabel Post.summary) = f.roots.map (Tree.relabel Post.summary) := by
  constructor
  · intro h
    obtain ⟨-, rfl⟩ := flatLines?_eq_some_iff.1 hlines
    obtain ⟨-, heq⟩ := flatLines?_eq_some_iff.1 h
    rw [← Tree.listing_inj, ← map_flatLines hindent, ← map_flatLines hindent, heq]
  · intro h
    rw [flatLines?_congr h, hlines]

/-- A flat listing for which there is room has one line for each post, in pre-order. The line begins with as
many spaces as the indentation times the depth of the post, and what follows is its text, which begins with
another sign. So the lines, read again as depths and texts, are the pre-order listing of the forest with the
texts in place of the posts, and the forests that have this flat listing are those that have the same texts
in the same places. -/
theorem flatLines_read_back (indent : UInt64) (f : Forest Post) (hindent : 1 ≤ indent)
    (hroom : f.HasRoom indent) :
    ∃ lines, f.flatLines? indent = some lines ∧ lines.length = f.size ∧
    (∀ (k d : Nat) (p : Post), f.entries[k]? = some (d, p) → p.summary.toList.head? = some '#' ∧
      ∃ line, lines[k]? = some line ∧ leadingSpaces line = indent.toNat * d ∧
        unindented line = p.summary) ∧
    ofPreorder (lines.map fun line => (leadingSpaces line / indent.toNat, unindented line)) =
      ⟨f.roots.map (Tree.relabel Post.summary)⟩ ∧
    ∀ g : Forest Post, g.flatLines? indent = some lines ↔
      g.roots.map (Tree.relabel Post.summary) = f.roots.map (Tree.relabel Post.summary) := by
  have hpos : 0 < indent.toNat := UInt64.le_iff_toNat_le.1 hindent
  have hlines := flatLines?_of_hasRoom hroom
  refine ⟨f.flatLines indent, hlines, ?_, ?_, ?_, fun g => flatLines?_eq_iff hpos hlines⟩
  · rw [flatLines, List.length_map, size, entries, List.length_map]
  · intro k d p h
    refine ⟨p.head?_summary, _, ?_, ?_, unindented_append (d * indent.toNat) p.stops_summary⟩
    · rw [flatLines, List.getElem?_map, h]
      rfl
    · rw [leadingSpaces_append _ p.stops_summary, Nat.mul_comm]
  · rw [map_flatLines hpos, ofPreorder, Tree.listOfPreorder_listing]

/-- A post with a subject that begins and ends with spaces, and a reply; three spaces for each level. -/
theorem flatLines_read_back_of_posts :
    let p : Post := ⟨1, none, "  a ", none⟩
    let q : Post := ⟨2, some 1, " b", some "c"⟩
    let f : Forest Post := ⟨[.node p [.leaf q]]⟩
    (1 : UInt64) ≤ 3 ∧ f.HasRoom 3 ∧ f.flatLines? 3 = some ["#1   a ", "   #2  b (c)"] ∧
      ofPreorder [(0, "#1   a "), (1, "#2  b (c)")] = ⟨[.node p.summary [.leaf q.summary]]⟩ := by
  intro p q f
  have hentries : f.entries = [(0, p), (1, q)] := f.entries_eq
  have hroom : f.HasRoom 3 := by
    rw [HasRoom, hentries]
    decide
  have hlines : f.flatLines? 3 = some ["#1   a ", "   #2  b (c)"] := by
    rw [flatLines?, hentries]
    decide +kernel
  have hdecoded : ["#1   a ", "   #2  b (c)"].map (fun line =>
      (leadingSpaces line / (3 : UInt64).toNat, unindented line)) =
        [(0, "#1   a "), (1, "#2  b (c)")] := by
    decide +kernel
  obtain ⟨_, hlines', _, _, hforest, _⟩ := flatLines_read_back 3 f (by decide) hroom
  cases hlines.symm.trans hlines'
  rw [hdecoded] at hforest
  exact ⟨by decide, hroom, hlines, hforest⟩

/-- The indentation of a reply that no text has room for, though the number of spaces fits a word. -/
theorem flatLines_broken_off :
    let p : Post := ⟨1, none, "", none⟩
    let q : Post := ⟨2, some 1, "", none⟩
    let f : Forest Post := ⟨[.node p [.leaf q]]⟩
    (1 : UInt64) ≤ 9223372036854775808 ∧
      (∀ e ∈ f.entries, e.1 * (9223372036854775808 : UInt64).toNat < 2 ^ 64) ∧
      f.flatLines? 9223372036854775808 = none := by
  intro p q f
  have hentries : f.entries = [(0, p), (1, q)] := f.entries_eq
  refine ⟨by decide, ?_, flatLines?_eq_none_iff.2 ?_⟩
  · rw [hentries]
    decide
  · rw [HasRoom, hentries]
    decide

end Forest

end Discussion
