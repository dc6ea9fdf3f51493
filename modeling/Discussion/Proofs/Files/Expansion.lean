import Mathlib.Data.List.Infix
import Discussion.Files.Expansion
import Discussion.Proofs.Data.Members
import Discussion.Proofs.Text.Runs

/-!
# What becomes of the variables in a path

A path is read once, from left to right, and what is read depends on the path alone. The values come in
afterwards, so nothing in them is read.

* `Expansion.Written p w rest`: in front of `rest`, the piece `p` is written `w`.
* `Expansion.MadeOf s ps`: the text is written with these pieces, one behind the other.
* `Expansion.Stands env p v`: the piece stands for `v`.
* `Expansion.Lacks env ps`: a variable that one of the pieces needs is not set.
* `Expansion.homeText env rest`: what a `~` at the beginning of a path stands for in front of `rest`.

Results:
1. `madeOf_iff`: every text is made of pieces in one way, and these are the ones that are read.
2. `variables?_eq_some_iff`, `variables?_eq_none_iff`: all pieces are replaced by what they stand for,
   unless one of them stands for nothing.
3. `full_of_tilde`, `full_of_no_tilde`: only a `~` with which the path itself begins is replaced.
4. `Path.expand_all_or_none`: a path is expanded as a whole, or left alone.
-/

namespace Discussion

open Text (Stops stops_cons stops_nil)

namespace Expansion

/-! ## How paths are written -/

/-- The text has a mark `:-` in it. -/
def HasMark (s : List Char) : Prop :=
  [':', '-'] <:+: s

/-- The piece is written in this way in front of `rest`. -/
inductive Written : Piece → List Char → List Char → Prop
  /-- Any character but `$` stands for itself. -/
  | plain {c : Char} {rest : List Char} : c ≠ '$' → Written (.literal [c]) [c] rest
  /-- Two `$` stand for one. -/
  | doubled {rest : List Char} : Written (.literal ['$']) ['$', '$'] rest
  /-- A `$` in front of anything else that does not begin a name stands for itself. -/
  | lone {rest : List Char} : (∀ c ∈ rest.head?, c ≠ '$' ∧ c ≠ '\x7b') → Stops isNameChar rest →
      Written (.literal ['$']) ['$'] rest
  /-- So does an opening brace behind a `$`, if nothing closes it. -/
  | unclosed {rest : List Char} : '\x7d' ∉ rest → Written (.literal ['$', '\x7b']) ['$', '\x7b'] rest
  /-- A name without braces goes as far as it can. -/
  | named {name rest : List Char} : name ≠ [] → (∀ c ∈ name, isNameChar c) → Stops isNameChar rest →
      Written (.reference (String.ofList name) none) ('$' :: name) rest
  /-- A name between braces has no mark in it, or begins with one. -/
  | braced {name rest : List Char} : '\x7d' ∉ name → (HasMark name → [':', '-'] <+: name) →
      Written (.reference (String.ofList name) none) ('$' :: '\x7b' :: (name ++ ['\x7d'])) rest
  /-- The first mark ends the name, and the text to fall back on is behind it. -/
  | fallback {name text rest : List Char} : name ≠ [] → ¬ HasMark name → '\x7d' ∉ name → '\x7d' ∉ text →
      Written (.reference (String.ofList name) (some text))
        ('$' :: '\x7b' :: (name ++ ':' :: '-' :: text ++ ['\x7d'])) rest

/-- The text is written with these pieces, one behind the other. -/
inductive MadeOf : List Char → List Piece → Prop
  | nil : MadeOf [] []
  | cons {p : Piece} {w rest : List Char} {ps : List Piece} :
      Written p w rest → MadeOf rest ps → MadeOf (w ++ rest) (p :: ps)

/-! ## Marks -/

theorem hasMark_cons {c : Char} {s : List Char} :
    HasMark (c :: s) ↔ (c = ':' ∧ ∃ r, s = '-' :: r) ∨ HasMark s := by
  rw [HasMark, List.infix_cons_iff, List.cons_prefix_cons]
  refine or_congr (and_congr eq_comm ?_) .rfl
  constructor
  · rintro ⟨r, rfl⟩
    exact ⟨r, rfl⟩
  · rintro ⟨r, rfl⟩
    exact ⟨r, rfl⟩

/-- The text is parted at the first mark. -/
theorem splitFallback_of_mark {name : List Char} (h : ¬ HasMark name) (text : List Char) :
    splitFallback (name ++ ':' :: '-' :: text) = some (name, text) := by
  induction name with
  | nil => rfl
  | cons c name ih =>
    rw [hasMark_cons, not_or] at h
    rw [List.cons_append, splitFallback, ih h.2]
    · rfl
    · rintro r rfl hr
      cases name with
      | nil => cases hr
      | cons d name =>
        cases hr
        exact h.1 ⟨rfl, name, rfl⟩

theorem splitFallback_of_no_mark {s : List Char} (h : ¬ HasMark s) : splitFallback s = none := by
  induction s with
  | nil => rfl
  | cons c s ih =>
    rw [hasMark_cons, not_or] at h
    rw [splitFallback, ih h.2]
    · rfl
    · rintro r rfl rfl
      exact h.1 ⟨rfl, r, rfl⟩

theorem exists_mark {s : List Char} (h : HasMark s) :
    ∃ name text, s = name ++ ':' :: '-' :: text ∧ ¬ HasMark name := by
  induction s with
  | nil => cases List.infix_nil.1 h
  | cons c s ih =>
    by_cases hc : c = ':' ∧ ∃ r, s = '-' :: r
    · obtain ⟨rfl, r, rfl⟩ := hc
      exact ⟨[], r, rfl, fun h => nomatch List.infix_nil.1 h⟩
    · obtain ⟨name, text, rfl, hname⟩ := ih ((hasMark_cons.1 h).resolve_left hc)
      refine ⟨c :: name, text, rfl, fun hmark => ?_⟩
      obtain ⟨rfl, r, rfl⟩ := (hasMark_cons.1 hmark).resolve_right hname
      exact hc ⟨rfl, _, rfl⟩

theorem braced_of_name {s : List Char} (h : HasMark s → [':', '-'] <+: s) :
    braced s = .reference (String.ofList s) none := by
  by_cases hmark : HasMark s
  · obtain ⟨text, rfl⟩ := h hmark
    rfl
  · rw [braced, splitFallback_of_no_mark hmark]

theorem braced_of_fallback {name : List Char} (hne : name ≠ []) (h : ¬ HasMark name)
    (text : List Char) :
    braced (name ++ ':' :: '-' :: text) = .reference (String.ofList name) (some text) := by
  rw [braced, splitFallback_of_mark h]
  cases name with
  | nil => exact absurd rfl hne
  | cons c name => rfl

/-! ## Reading -/

theorem afterDollar_unclosed {s : List Char} (h : '\x7d' ∉ s) :
    afterDollar ('\x7b' :: s) = (.literal ['$', '\x7b'], 1) := by
  have hend : s.dropWhile (· ≠ '\x7d') = [] := by
    refine List.dropWhile_eq_nil_iff.2 fun c hc => decide_eq_true ?_
    rintro rfl
    exact h hc
  rw [afterDollar, hend]

theorem afterDollar_closed {s : List Char} (h : '\x7d' ∉ s) (rest : List Char) :
    afterDollar ('\x7b' :: (s ++ '\x7d' :: rest)) = (braced s, s.length + 2) := by
  have hs : ∀ c ∈ s, decide (c ≠ '\x7d') = true := by
    intro c hc
    refine decide_eq_true ?_
    rintro rfl
    exact h hc
  have hrest : Stops (fun c => decide (c ≠ '\x7d')) ('\x7d' :: rest) := stops_cons.2 rfl
  rw [afterDollar, Text.dropWhile_append hs hrest, Text.takeWhile_append hs hrest]

theorem afterDollar_lone {s : List Char} (h : ∀ c ∈ s.head?, c ≠ '$' ∧ c ≠ '\x7b')
    (hs : Stops isNameChar s) : afterDollar s = (.literal ['$'], 0) := by
  cases s with
  | nil => rfl
  | cons c s =>
    obtain ⟨hdollar, hbrace⟩ := h c rfl
    rw [afterDollar, hs.takeWhile]
    · exact fun r hr => hdollar (List.cons.inj hr).1
    · exact fun r hr => hbrace (List.cons.inj hr).1

theorem isNameChar_dollar : isNameChar '$' = false := by
  decide +kernel

theorem isNameChar_brace : isNameChar '\x7b' = false := by
  decide +kernel

theorem isNameChar_ne {c : Char} (h : isNameChar c) : c ≠ '$' ∧ c ≠ '\x7b' := by
  constructor
  · rintro rfl
    cases isNameChar_dollar.symm.trans h
  · rintro rfl
    cases isNameChar_brace.symm.trans h

theorem afterDollar_named {name rest : List Char} (hne : name ≠ []) (hname : ∀ c ∈ name, isNameChar c)
    (hrest : Stops isNameChar rest) :
    afterDollar (name ++ rest) = (.reference (String.ofList name) none, name.length) := by
  cases name with
  | nil => exact absurd rfl hne
  | cons c name =>
    obtain ⟨hdollar, hbrace⟩ := isNameChar_ne (hname c List.mem_cons_self)
    rw [List.cons_append, afterDollar, ← List.cons_append, Text.takeWhile_append hname hrest]
    · exact fun r hr => hdollar (List.cons.inj hr).1
    · exact fun r hr => hbrace (List.cons.inj hr).1

theorem drop_closed (s rest : List Char) :
    ('\x7b' :: (s ++ '\x7d' :: rest)).drop (s.length + 2) = rest := by
  rw [List.drop_succ_cons, List.append_cons, List.drop_left']
  rw [List.length_append, List.length_singleton]

theorem pieces_dollar {s : List Char} {p : Piece} {n : Nat} (h : afterDollar s = (p, n)) :
    pieces ('$' :: s) = p :: pieces (s.drop n) := by
  rw [pieces, if_pos rfl, h]

/-- What is written with a piece is read as that piece. -/
theorem Written.pieces_append {p : Piece} {w rest : List Char} (h : Written p w rest) :
    pieces (w ++ rest) = p :: pieces rest := by
  cases h with
  | plain hc => rw [List.singleton_append, pieces, if_neg hc]
  | doubled => exact pieces_dollar rfl
  | lone hhead hstop => exact pieces_dollar (afterDollar_lone hhead hstop)
  | unclosed hrest => exact pieces_dollar (afterDollar_unclosed hrest)
  | @named name _ hne hname hstop =>
    rw [List.cons_append, pieces_dollar (afterDollar_named hne hname hstop), List.drop_left]
  | @braced name _ hclose hmark =>
    have hdollar := afterDollar_closed hclose rest
    rw [braced_of_name hmark] at hdollar
    rw [List.cons_append, List.cons_append, List.append_assoc, List.singleton_append,
      pieces_dollar hdollar, drop_closed]
  | @fallback name text _ hne hmark hname htext =>
    have hclose : '\x7d' ∉ name ++ ':' :: '-' :: text := by simp [hname, htext]
    have hdollar := afterDollar_closed hclose rest
    rw [braced_of_fallback hne hmark] at hdollar
    rw [List.cons_append, List.cons_append, List.append_assoc, List.singleton_append,
      pieces_dollar hdollar, drop_closed]

theorem MadeOf.pieces_eq {s : List Char} {ps : List Piece} (h : MadeOf s ps) : pieces s = ps := by
  induction h with
  | nil => rw [pieces]
  | cons hp _ ih => rw [hp.pieces_append, ih]

/-- Whatever follows a `$`, something is written there. -/
theorem exists_written_dollar (s : List Char) :
    ∃ p w rest, s = w ++ rest ∧ Written p ('$' :: w) rest := by
  rcases s with _ | ⟨c, s⟩
  · exact ⟨_, [], [], rfl, .lone nofun stops_nil⟩
  by_cases hdollar : c = '$'
  · subst hdollar
    exact ⟨_, ['$'], s, rfl, .doubled⟩
  by_cases hbrace : c = '\x7b'
  · subst hbrace
    by_cases hclose : '\x7d' ∈ s
    · obtain ⟨t, rest, rfl, ht⟩ := List.eq_append_cons_of_mem hclose
      by_cases hmark : HasMark t → [':', '-'] <+: t
      · exact ⟨_, '\x7b' :: (t ++ ['\x7d']), rest, by simp, .braced ht hmark⟩
      · -- There is a mark that is not at the beginning, so what is before the first one is a name.
        rw [Classical.not_imp] at hmark
        obtain ⟨name, text, rfl, hname⟩ := exists_mark hmark.1
        have hne : name ≠ [] := by
          rintro rfl
          exact hmark.2 ⟨text, rfl⟩
        simp only [List.mem_append, List.mem_cons, not_or] at ht
        exact ⟨_, '\x7b' :: (name ++ ':' :: '-' :: text ++ ['\x7d']), rest, by simp,
          .fallback hne hname ht.1 ht.2.2.2⟩
    · exact ⟨_, ['\x7b'], s, rfl, .unclosed hclose⟩
  by_cases hname : isNameChar c
  · refine ⟨_, (c :: s).takeWhile isNameChar, (c :: s).dropWhile isNameChar,
      List.takeWhile_append_dropWhile.symm, .named ?_ ?_ (Text.stops_dropWhile _)⟩
    · rw [List.takeWhile_cons_of_pos hname]
      exact List.cons_ne_nil _ _
    · exact fun d hd => List.mem_takeWhile_imp hd
  · refine ⟨_, [], c :: s, rfl, .lone ?_ (stops_cons.2 (Bool.eq_false_iff.2 hname))⟩
    rintro d hd
    cases hd
    exact ⟨hdollar, hbrace⟩

theorem exists_madeOf (s : List Char) : ∃ ps, MadeOf s ps := by
  -- A piece can take any number of characters, so the induction is on the length of the text.
  induction hlength : s.length using Nat.strongRecOn generalizing s with
  | ind n ih =>
    rcases s with _ | ⟨c, s⟩
    · exact ⟨[], .nil⟩
    obtain ⟨p, w, rest, hs, hp⟩ : ∃ p w rest, c :: s = (c :: w) ++ rest ∧ Written p (c :: w) rest := by
      by_cases hc : c = '$'
      · subst hc
        obtain ⟨p, w, rest, rfl, hp⟩ := exists_written_dollar s
        exact ⟨p, w, rest, rfl, hp⟩
      · exact ⟨_, [], s, rfl, .plain hc⟩
    have hlt : rest.length < n := by
      rw [← hlength, hs, List.length_append, List.length_cons]
      omega
    obtain ⟨ps, hps⟩ := ih _ hlt rest rfl
    exact ⟨p :: ps, hs ▸ .cons hp hps⟩

/-- A text is made of the pieces that are read from it, and of no others. -/
theorem madeOf_iff {s : List Char} {ps : List Piece} : MadeOf s ps ↔ pieces s = ps := by
  constructor
  · exact MadeOf.pieces_eq
  · rintro rfl
    obtain ⟨qs, hqs⟩ := exists_madeOf s
    exact hqs.pieces_eq.symm ▸ hqs

/-! ## What pieces stand for -/

/-- A piece stands for a text: a reference for the value of its variable, or for the text to fall back on
if the variable is not set. -/
inductive Stands (env : Environment) : Piece → List Char → Prop
  | literal (s : List Char) : Stands env (.literal s) s
  | value {name value : String} {fallback : Option (List Char)} :
      env.get? name = some value → Stands env (.reference name fallback) value.toList
  | fallback {name : String} {text : List Char} :
      env.get? name = none → Stands env (.reference name (some text)) text

/-- One of the pieces refers to a variable that is not set, with nothing to fall back on. -/
def Lacks (env : Environment) (ps : List Piece) : Prop :=
  ∃ name, .reference name none ∈ ps ∧ env.get? name = none

theorem value?_eq_some_iff {env : Environment} {p : Piece} {v : List Char} :
    p.value? env = some v ↔ Stands env p v := by
  constructor
  · intro h
    cases p with
    | literal s =>
      cases h
      exact .literal _
    | reference name fallback =>
      rw [Piece.value?] at h
      cases hget : env.get? name with
      | none =>
        rw [hget, Option.map_none, Option.none_or] at h
        subst h
        exact .fallback hget
      | some value =>
        rw [hget] at h
        cases h
        exact .value hget
  · intro h
    cases h with
    | literal s => rfl
    | value hget => rw [Piece.value?, hget]; rfl
    | fallback hget => rw [Piece.value?, hget]; rfl

theorem value?_eq_none_iff {env : Environment} {p : Piece} :
    p.value? env = none ↔ ∃ name, p = .reference name none ∧ env.get? name = none := by
  cases p with
  | literal s => simp [Piece.value?]
  | reference name fallback => simp [Piece.value?, and_comm]

theorem variables?_eq_some_iff {env : Environment} {s t : List Char} :
    variables? env s = some t ↔ ∃ vs, List.Forall₂ (Stands env) (pieces s) vs ∧ vs.flatten = t := by
  rw [variables?, Option.map_eq_some_iff]
  simp only [Data.mapM_eq_some_iff, value?_eq_some_iff]

theorem variables?_eq_none_iff {env : Environment} {s : List Char} :
    variables? env s = none ↔ Lacks env (pieces s) := by
  rw [variables?, Option.map_eq_none_iff, Data.mapM_eq_none_iff]
  constructor
  · rintro ⟨p, hp, hvalue⟩
    obtain ⟨name, rfl, hget⟩ := value?_eq_none_iff.1 hvalue
    exact ⟨name, hp, hget⟩
  · rintro ⟨name, hp, hget⟩
    exact ⟨_, hp, value?_eq_none_iff.2 ⟨name, rfl, hget⟩⟩

/-- A text without `$` refers to nothing. -/
theorem variables?_of_no_dollar (env : Environment) {s : List Char} (h : '$' ∉ s) :
    variables? env s = some s := by
  rw [variables?_eq_some_iff]
  induction s with
  | nil => exact ⟨[], by rw [pieces]; exact .nil, rfl⟩
  | cons c s ih =>
    rw [List.mem_cons, not_or] at h
    obtain ⟨vs, hvs, hflat⟩ := ih h.2
    refine ⟨[c] :: vs, ?_, by rw [List.flatten_cons, hflat, List.singleton_append]⟩
    rw [pieces, if_neg (Ne.symm h.1)]
    exact .cons (.literal _) hvs

/-! ## The beginning of a path -/

/-- What a `~` at the beginning of a path stands for in front of `rest`: the home directory, if there is one
and a slash or nothing follows, and otherwise itself. -/
def homeText (env : Environment) (rest : List Char) : List Char :=
  if rest.head?.all (· == '/') then env.home?.elim ['~'] String.toList else ['~']

theorem tilde_eq (env : Environment) (rest : List Char) :
    tilde env ('~' :: rest) = homeText env rest ++ rest := by
  rcases rest with _ | ⟨c, rest⟩
  · cases hhome : env.home? <;> simp [tilde, homeText, hhome]
  · by_cases hc : c = '/'
    · subst hc
      cases hhome : env.home? <;> simp [tilde, homeText, hhome]
    · simp [tilde, homeText, hc]

theorem startsWithTilde_iff {s : List Char} : startsWithTilde s ↔ s.head? = some '~' := by
  rcases s with _ | ⟨c, s⟩
  · simp [startsWithTilde]
  · by_cases hc : c = '~'
    · subst hc
      simp [startsWithTilde]
    · simp [startsWithTilde, hc]

theorem tilde_of_no_tilde (env : Environment) {s : List Char} (hs : ¬ startsWithTilde s) :
    tilde env s = s := by
  rw [tilde]
  · rintro _ rfl
    exact absurd rfl hs
  · rintro r _ rfl
    exact absurd rfl hs

theorem full_of_none {env : Environment} {s : List Char} (h : variables? env s = none) :
    full env s = s := by
  rw [full, h]

/-- A `~` that came with a value stays. -/
theorem full_of_no_tilde {env : Environment} {s t : List Char} (h : variables? env s = some t)
    (hs : s.head? ≠ some '~') : full env s = t := by
  rw [Ne, ← startsWithTilde_iff, Bool.not_eq_true] at hs
  rw [full, h]
  by_cases ht : startsWithTilde t
  · simp [hs, ht]
  · simp [ht, tilde_of_no_tilde env ht]

theorem full_of_tilde {env : Environment} {s t : List Char}
    (h : variables? env ('~' :: s) = some ('~' :: t)) :
    full env ('~' :: s) = homeText env t ++ t := by
  rw [full, h, ← tilde_eq]
  rfl

end Expansion

open Expansion

/-- A path is expanded as a whole, or left alone. There is one way to read it, and this does not depend on
the environment. Every piece is replaced once, and what it is replaced by is not read again. -/
theorem Path.expand_all_or_none (p : Path) :
    ∃ ps, MadeOf p.text.toList ps ∧ (∀ qs, MadeOf p.text.toList qs → qs = ps) ∧ ∀ env : Environment,
      (Lacks env ps → p.expand env = p) ∧
      (¬ Lacks env ps →
        ∃ vs, List.Forall₂ (Stands env) ps vs ∧
          (p.text.toList.head? ≠ some '~' → (p.expand env).text.toList = vs.flatten) ∧
          (∀ r, p.text.toList = '~' :: r → ∃ us, vs = ['~'] :: us ∧
            (p.expand env).text.toList = homeText env us.flatten ++ us.flatten)) ∧
      ('$' ∉ p.text.toList → p.text.toList.head? ≠ some '~' → p.expand env = p) := by
  refine ⟨pieces p.text.toList, madeOf_iff.2 rfl, fun qs hqs => (madeOf_iff.1 hqs).symm, fun env => ?_⟩
  have hself (h : full env p.text.toList = p.text.toList) : p.expand env = p := by
    rw [Path.expand, h, String.ofList_toList]
  have htext : (p.expand env).text.toList = full env p.text.toList := String.toList_ofList
  refine ⟨fun hlacks => ?_, fun hlacks => ?_, fun hdollar htilde => ?_⟩
  · exact hself (full_of_none (variables?_eq_none_iff.2 hlacks))
  · rw [← variables?_eq_none_iff] at hlacks
    obtain ⟨t, ht⟩ := Option.ne_none_iff_exists'.1 hlacks
    obtain ⟨vs, hvs, rfl⟩ := variables?_eq_some_iff.1 ht
    refine ⟨vs, hvs, fun htilde => ?_, fun r hr => ?_⟩
    · rw [htext, full_of_no_tilde ht htilde]
    · -- The first piece is the `~` itself, which stands for itself before it is looked at again.
      rw [hr, pieces, if_neg (by decide)] at hvs
      rw [htext]
      rw [hr] at ht ⊢
      cases hvs with
      | cons hfirst _ =>
        cases hfirst
        exact ⟨_, rfl, full_of_tilde ht⟩
  · exact hself (full_of_no_tilde (variables?_of_no_dollar env hdollar) htilde)

/-- A variable that is not set leaves the whole path as it is, home directory and all. A `$` and a `~` in
a value stay. -/
theorem Path.expand_all_or_none_of_paths :
    let env : Environment := { entries := ["HOME=/home/user", "D=~$E"] }
    Path.expand env ⟨"~/$D/$E"⟩ = ⟨"~/$D/$E"⟩ ∧
      (Path.expand env ⟨"$D/$\x7bN:-x\x7d"⟩).text.toList = "~$E/x".toList := by
  intro env
  constructor
  · obtain ⟨ps, -, hps, h⟩ := Path.expand_all_or_none ⟨"~/$D/$E"⟩
    have hread : pieces "~/$D/$E".toList =
        [.literal ['~'], .literal ['/'], .reference "D" none, .literal ['/'], .reference "E" none] := by
      decide +kernel
    cases hps _ (madeOf_iff.2 hread)
    exact (h env).1 ⟨"E", by decide, by decide +kernel⟩
  · obtain ⟨ps, hps, -, h⟩ := Path.expand_all_or_none ⟨"$D/$\x7bN:-x\x7d"⟩
    cases madeOf_iff.1 hps
    have hvalues : variables? env "$D/$\x7bN:-x\x7d".toList = some "~$E/x".toList := by decide +kernel
    have hlacks : ¬ Lacks env (pieces "$D/$\x7bN:-x\x7d".toList) := by
      rw [← variables?_eq_none_iff, hvalues]
      exact Option.some_ne_none _
    obtain ⟨vs, hvs, h, -⟩ := (h env).2.1 hlacks
    have hflat := variables?_eq_some_iff.2 ⟨vs, hvs, rfl⟩
    exact (h (by decide)).trans (Option.some.inj (hflat.symm.trans hvalues))

end Discussion
