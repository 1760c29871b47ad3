import Mathlib
import Fibers.Topology.CpuList
/-!
# The grammar of cpu lists

`parseCpuList` reads texts such as `0-3,8,10-11`. This module states the grammar it accepts
without reference to how it reads, and proves that it reads exactly that grammar
(`parseCpuList_grammar`):

* the text is trimmed of white space, cut at every comma, and the empty pieces are skipped;
* a piece without a hyphen is one word, trimmed; a piece with a hyphen is cut at its first
  one, and each side, trimmed, is a word, the first at most the second (`PieceReads`);
* a word is an optional plus sign and a non-empty run of decimal digits whose value is a
  machine word (`IsWord`), read as core reads digit characters;
* the cpus are the pieces' cpus in order, duplicates and disorder kept.

So a piece of white space alone is refused, since it trims to no word; and every list of
pieces in range, written with `CpuPiece.render` and joined by commas, reads back as its
cpus.

## Contents
1. Words.
2. Cutting at a separator.
3. Pieces.
4. Whole lists.
5. Written lists read back.
-/

namespace Fibers

namespace CpuList

/-! ## 1. Words -/

/-- A machine word in decimal: an optional plus sign, then a non-empty run of decimal digits
whose value fits a word. -/
def IsWord (w : List Char) (n : Nat) : Prop :=
  ∃ ds, (w = ds ∨ w = '+' :: ds) ∧ ds ≠ [] ∧ (∀ c ∈ ds, c.isDigit = true) ∧
    Nat.ofDigitChars 10 ds 0 = n ∧ n < wordLimit

theorem digitsValue_eq_ofDigitChars (ds : List Char) : digitsValue ds = Nat.ofDigitChars 10 ds 0 := by
  simp only [digitsValue, Nat.ofDigitChars_eq_foldl, Nat.mul_comm]

/-- The reader's test on what follows the sign: digits, at least one, whose value fits. -/
theorem digits_accepted (ds : List Char) (n : Nat) :
    (if ds.isEmpty ∨ !ds.all Char.isDigit then none
      else if digitsValue ds < wordLimit then some (digitsValue ds) else none) = some n ↔
    ds ≠ [] ∧ (∀ c ∈ ds, c.isDigit = true) ∧ Nat.ofDigitChars 10 ds 0 = n ∧ n < wordLimit := by
  rw [digitsValue_eq_ofDigitChars]
  split_ifs with h₁ h₂
  · simp only [false_iff, not_and]
    intro hne hall
    simp [hne, List.all_eq_true.2 hall] at h₁
  · simp only [Option.some.injEq]
    constructor
    · rintro rfl
      simp only [Bool.not_eq_true', not_or, List.isEmpty_iff, Bool.not_eq_false,
        List.all_eq_true] at h₁
      exact ⟨h₁.1, h₁.2, rfl, h₂⟩
    · exact fun h => h.2.2.1
  · simp only [false_iff, not_and]
    intro _ _ hval hlim
    exact h₂ (hval ▸ hlim)

/-- The reader of words accepts exactly the words. -/
theorem readWord_eq_some_iff (w : List Char) (n : Nat) : readWord w = some n ↔ IsWord w n := by
  unfold readWord
  dsimp only
  split
  · -- the sign is dropped; what follows must be digits
    rename_i rest
    rw [digits_accepted]
    constructor
    · rintro ⟨hne, hall, hval, hlim⟩
      exact ⟨rest, .inr rfl, hne, hall, hval, hlim⟩
    · rintro ⟨ds, hw | hw, hne, hall, hval, hlim⟩
      · simp [← hw] at hall
      · obtain rfl := (List.cons.inj hw).2
        exact ⟨hne, hall, hval, hlim⟩
  · rename_i hw
    rw [digits_accepted]
    constructor
    · rintro ⟨hne, hall, hval, hlim⟩
      exact ⟨w, .inl rfl, hne, hall, hval, hlim⟩
    · rintro ⟨ds, rfl | rfl, hne, hall, hval, hlim⟩
      · exact ⟨hne, hall, hval, hlim⟩
      · exact absurd rfl (hw ds)

/-! ## 2. Cutting at a separator -/

/-- Cutting at a separator is the library's `splitOn`. -/
theorem cut_eq_splitOn (sep : Char) : ∀ cs : List Char, cut sep cs = cs.splitOn sep
  | [] => rfl
  | c :: rest => by
    rw [cut, List.splitOn_cons_eq_if_modifyHead, cut_eq_splitOn sep rest]
    by_cases hc : c = sep
    · simp [hc]
    · obtain ⟨first, more, h⟩ := List.exists_cons_of_ne_nil (List.splitOn_ne_nil sep rest)
      simp [hc, h]

/-! ## 3. Pieces -/

/-- How a piece of a cpu list reads: a piece without a hyphen as the one word it holds,
trimmed; a piece with one as a range, cut at its first hyphen into two trimmed words, the
first at most the second. -/
def PieceReads (p : List Char) : CpuPiece → Prop
  | .one n => '-' ∉ p ∧ IsWord (Text.trimChars p) n
  | .span lo hi => ∃ a b, p = a ++ '-' :: b ∧ '-' ∉ a ∧ IsWord (Text.trimChars a) lo ∧
      IsWord (Text.trimChars b) hi ∧ lo ≤ hi

/-- The cut at the first hyphen: what stands before it, and what follows it. -/
theorem first_hyphen {p a b : List Char} (h : p = a ++ '-' :: b) (ha : '-' ∉ a) :
    p.takeWhile (· ≠ '-') = a ∧ p.dropWhile (· ≠ '-') = '-' :: b := by
  have hpos : ∀ x ∈ a, decide (x ≠ '-') = true := by
    intro x hx
    rw [decide_eq_true_eq]
    rintro rfl
    exact ha hx
  subst h
  rw [List.takeWhile_append_of_pos hpos, List.dropWhile_append_of_pos hpos]
  simp

theorem readPiece_of_not_mem {p : List Char} (hp : '-' ∉ p) :
    readPiece p = CpuPiece.one <$> readWord (Text.trimChars p) := by
  have hnil : p.dropWhile (· ≠ '-') = [] := by
    rw [List.dropWhile_eq_nil_iff]
    intro x hx
    rw [decide_eq_true_eq]
    rintro rfl
    exact hp hx
  simp only [readPiece, hnil]

theorem readPiece_of_split {p a b : List Char} (h : p = a ++ '-' :: b) (ha : '-' ∉ a) :
    readPiece p = (do
      let lo ← readWord (Text.trimChars a)
      let hi ← readWord (Text.trimChars b)
      if lo ≤ hi then some (CpuPiece.span lo hi) else none) := by
  obtain ⟨htake, hdrop⟩ := first_hyphen h ha
  simp only [readPiece, hdrop, htake]

/-- A piece with a hyphen is cut at its first one. -/
theorem exists_first_hyphen : ∀ {p : List Char}, '-' ∈ p → ∃ a b, p = a ++ '-' :: b ∧ '-' ∉ a
  | c :: rest, h => by
    by_cases hc : c = '-'
    · exact ⟨[], rest, by simp [hc], by simp⟩
    · have hrest : '-' ∈ rest := by
        rcases List.mem_cons.1 h with h | h
        · exact absurd h.symm hc
        · exact h
      obtain ⟨a, b, hab, ha⟩ := exists_first_hyphen hrest
      refine ⟨c :: a, b, by simp [hab], ?_⟩
      simp only [List.mem_cons, not_or]
      exact ⟨fun h => hc h.symm, ha⟩

/-- The reader of pieces accepts exactly what `PieceReads` describes. -/
theorem readPiece_eq_some_iff (p : List Char) (c : CpuPiece) :
    readPiece p = some c ↔ PieceReads p c := by
  by_cases hp : '-' ∈ p
  · obtain ⟨a, b, hsplit, ha⟩ := exists_first_hyphen hp
    rw [readPiece_of_split hsplit ha]
    cases c with
    | one n =>
      simp only [PieceReads, hp, not_true_eq_false, false_and, iff_false]
      intro h
      simp only [Option.bind_eq_bind, Option.bind_eq_some_iff] at h
      obtain ⟨lo, -, hi, -, h⟩ := h
      split_ifs at h
      cases h
    | span lo hi =>
      simp only [PieceReads, Option.bind_eq_bind, Option.bind_eq_some_iff,
        Option.ite_none_right_eq_some, Option.some.injEq, CpuPiece.span.injEq]
      constructor
      · rintro ⟨lo', hlo, hi', hhi, hle, rfl, rfl⟩
        exact ⟨a, b, hsplit, ha, (readWord_eq_some_iff _ _).1 hlo,
          (readWord_eq_some_iff _ _).1 hhi, hle⟩
      · rintro ⟨a', b', hsplit', ha', hlo, hhi, hle⟩
        -- the first hyphen is one place, so the two cuts agree
        obtain ⟨htake, hdrop⟩ := first_hyphen hsplit ha
        obtain ⟨htake', hdrop'⟩ := first_hyphen hsplit' ha'
        obtain rfl : a' = a := htake'.symm.trans htake
        obtain rfl : b' = b := (List.cons.inj (hdrop'.symm.trans hdrop)).2
        exact ⟨lo, (readWord_eq_some_iff _ _).2 hlo, hi, (readWord_eq_some_iff _ _).2 hhi,
          hle, rfl, rfl⟩
  · rw [readPiece_of_not_mem hp]
    cases c with
    | one n => simp [PieceReads, hp, readWord_eq_some_iff]
    | span lo hi =>
      simp only [PieceReads, Option.map_eq_map, Option.map_eq_some_iff, reduceCtorEq, and_false,
        exists_false, false_iff, not_exists, not_and]
      intro a b hab
      simp [hab] at hp

/-! ## 4. Whole lists -/

/-- The pieces of a cpu-list text: the text trimmed of white space, cut at every comma, the
empty pieces left out. -/
def textPieces (text : String) : List (List Char) :=
  ((Text.trimChars text.toList).splitOn ',').filter (fun p => !p.isEmpty)

/-- Reading every element succeeds exactly when each element reads, in order. -/
theorem mapM_eq_some_iff {α β : Type} {f : α → Option β} :
    ∀ {l : List α} {l' : List β}, l.mapM f = some l' ↔ List.Forall₂ (fun a b => f a = some b) l l'
  | [], l' => by cases l' <;> simp
  | a :: l, l' => by
    simp only [List.mapM_cons, Option.bind_eq_bind, Option.bind_eq_some_iff, Option.pure_def,
      Option.some.injEq, List.forall₂_cons_left_iff, mapM_eq_some_iff]
    constructor
    · rintro ⟨b, hb, bs, hbs, rfl⟩
      exact ⟨b, bs, hb, hbs, rfl⟩
    · rintro ⟨b, bs, hb, hbs, rfl⟩
      exact ⟨b, hb, bs, hbs, rfl⟩

theorem mem_of_forall₂ {α β : Type} {R : α → β → Prop} {l : List α} {l' : List β}
    (h : List.Forall₂ R l l') {a : α} (ha : a ∈ l) : ∃ b, R a b := by
  induction h with
  | nil => simp at ha
  | cons hr _ ih =>
    rcases List.mem_cons.1 ha with rfl | ha
    · exact ⟨_, hr⟩
    · exact ih ha

/-- A text reads exactly when each of its pieces reads; the cpus are the pieces' cpus in
order. -/
theorem parseCpuList_eq_some_iff (text : String) (v : List Nat) :
    parseCpuList text = some v ↔
      ∃ ps, List.Forall₂ PieceReads (textPieces text) ps ∧ v = ps.flatMap CpuPiece.cpus := by
  simp only [parseCpuList, pieces, cut_eq_splitOn, Option.map_eq_some_iff, mapM_eq_some_iff,
    readPiece_eq_some_iff]
  exact exists_congr fun _ => and_congr_right fun _ => eq_comm

theorem trimChars_eq_nil {cs : List Char} (h : ∀ c ∈ cs, Text.isWhiteSpace c = true) :
    Text.trimChars cs = [] := by
  simp [Text.trimChars, List.dropWhile_eq_nil_iff.2 h]

/-- A piece of white space alone reads as nothing. -/
theorem not_pieceReads_blank {p : List Char} (hb : ∀ c ∈ p, Text.isWhiteSpace c = true)
    (c : CpuPiece) : ¬ PieceReads p c := by
  have hnone : ∀ n, ¬ IsWord [] n := by
    rintro n ⟨ds, hw | hw, hne, -⟩
    · exact hne hw.symm
    · exact List.cons_ne_nil _ _ hw.symm
  cases c with
  | one n => exact fun h => hnone n (trimChars_eq_nil hb ▸ h.2)
  | span lo hi =>
    rintro ⟨a, b, rfl, -⟩
    have := hb '-' (by simp)
    simp [Text.isWhiteSpace] at this

/-- A text with a piece of white space alone is refused. -/
theorem parseCpuList_blank {text : String} {p : List Char} (hp : p ∈ textPieces text)
    (hb : ∀ c ∈ p, Text.isWhiteSpace c = true) : parseCpuList text = none := by
  cases hv : parseCpuList text with
  | none => rfl
  | some v =>
    obtain ⟨ps, hps, -⟩ := (parseCpuList_eq_some_iff text v).1 hv
    obtain ⟨c, hc⟩ := mem_of_forall₂ hps hp
    exact absurd hc (not_pieceReads_blank hb c)

end CpuList

/-! ## 5. Written lists read back -/

namespace CpuPiece

/-- A piece in range: its numbers are machine words, and a range ascends. -/
def InRange : CpuPiece → Prop
  | .one n => n < CpuList.wordLimit
  | .span lo hi => lo ≤ hi ∧ hi < CpuList.wordLimit

theorem isWhiteSpace_of_isDigit {c : Char} (h : c.isDigit = true) : Text.isWhiteSpace c = false := by
  simp only [Char.isDigit, Bool.and_eq_true, decide_eq_true_eq] at h
  simp only [Text.isWhiteSpace, Bool.decide_or, Bool.decide_and, Bool.or_eq_false_iff,
    Bool.and_eq_false_iff, decide_eq_false_iff_not, Char.toNat]
  simp only [Char.reduceVal, UInt32.le_iff_toNat_le, UInt32.reduceToNat] at h
  omega

theorem digits_isDigit (n : Nat) : ∀ c ∈ Nat.toDigits 10 n, c.isDigit = true :=
  fun _ hc => Nat.isDigit_of_mem_toDigits (by decide) (by decide) hc

/-- The characters of a written piece. -/
theorem toList_render : ∀ p : CpuPiece, p.render.toList =
    match p with
    | .one n => Nat.toDigits 10 n
    | .span lo hi => Nat.toDigits 10 lo ++ '-' :: Nat.toDigits 10 hi
  | .one n => by simp [render, Nat.toString_eq_repr, Nat.toList_repr]
  | .span lo hi => by
    have hdash : (toString "-").toList = ['-'] := rfl
    simp [render, Nat.toString_eq_repr, Nat.toList_repr, hdash]

theorem render_ne_nil (p : CpuPiece) : p.render.toList ≠ [] := by
  cases p <;> simp [toList_render, Nat.toDigits_ne_nil]

/-- A written piece holds digits and at most a hyphen: no comma, no white space. -/
theorem mem_render {p : CpuPiece} {c : Char} (hc : c ∈ p.render.toList) :
    c.isDigit = true ∨ c = '-' := by
  cases p with
  | one n => exact .inl (digits_isDigit n c (by simpa [toList_render] using hc))
  | span lo hi =>
    simp only [toList_render, List.mem_append, List.mem_cons] at hc
    rcases hc with hc | rfl | hc
    · exact .inl (digits_isDigit lo c hc)
    · exact .inr rfl
    · exact .inl (digits_isDigit hi c hc)

theorem hyphen_not_mem_digits (n : Nat) : '-' ∉ Nat.toDigits 10 n := fun h => by
  have := digits_isDigit n '-' h
  simp [Char.isDigit] at this

theorem dropWhile_white {cs : List Char} (h : ∀ c ∈ cs, Text.isWhiteSpace c = false) :
    cs.dropWhile Text.isWhiteSpace = cs := by
  cases cs with
  | nil => rfl
  | cons c rest => simp [h c List.mem_cons_self]

/-- Text without white space is its own trim. -/
theorem trimChars_of_not_white {cs : List Char} (h : ∀ c ∈ cs, Text.isWhiteSpace c = false) :
    Text.trimChars cs = cs := by
  have hr : ∀ c ∈ cs.reverse, Text.isWhiteSpace c = false := fun c hc => h c (List.mem_reverse.1 hc)
  simp only [Text.trimChars, dropWhile_white h, dropWhile_white hr, List.reverse_reverse]

theorem isWord_digits {n : Nat} (hn : n < CpuList.wordLimit) :
    CpuList.IsWord (Text.trimChars (Nat.toDigits 10 n)) n := by
  rw [trimChars_of_not_white fun c hc => isWhiteSpace_of_isDigit (digits_isDigit n c hc)]
  exact ⟨_, .inl rfl, Nat.toDigits_ne_nil, digits_isDigit n, Nat.ofDigitChars_ten_toDigits, hn⟩

/-- A piece in range, written, reads as itself. -/
theorem pieceReads_render {p : CpuPiece} (hp : p.InRange) : CpuList.PieceReads p.render.toList p := by
  cases p with
  | one n => exact ⟨by simpa [toList_render] using hyphen_not_mem_digits n, by
      simpa [toList_render] using isWord_digits hp⟩
  | span lo hi =>
    exact ⟨_, _, toList_render _, hyphen_not_mem_digits lo,
      isWord_digits (Nat.lt_of_le_of_lt hp.1 hp.2), isWord_digits hp.2, hp.1⟩

end CpuPiece

theorem mem_intercalate {sep : List Char} {c : Char} :
    ∀ {L : List (List Char)}, c ∈ sep.intercalate L → c ∈ sep ∨ ∃ l ∈ L, c ∈ l
  | [], h => by simp [List.intercalate_nil] at h
  | [l], h => .inr ⟨l, by simp, by simpa [List.intercalate_singleton] using h⟩
  | l :: l' :: L, h => by
    rw [List.intercalate_cons_cons] at h
    rcases List.mem_append.1 h with h | h
    · rcases List.mem_append.1 h with h | h
      · exact .inr ⟨l, by simp, h⟩
      · exact .inl h
    · rcases mem_intercalate h with h | ⟨l'', hl'', h⟩
      · exact .inl h
      · exact .inr ⟨l'', List.mem_cons_of_mem l hl'', h⟩

/-- The pieces of a written list are the written pieces. -/
theorem textPieces_render (ps : List CpuPiece) :
    CpuList.textPieces (",".intercalate (ps.map CpuPiece.render)) =
      ps.map (fun p => p.render.toList) := by
  have htext : (",".intercalate (ps.map CpuPiece.render)).toList =
      [','].intercalate (ps.map (fun p => p.render.toList)) := by
    simp only [String.toList_intercalate, List.map_map]
    rfl
  have hwhite : ∀ c ∈ [','].intercalate (ps.map (fun p => p.render.toList)),
      Text.isWhiteSpace c = false := by
    intro c hc
    rcases mem_intercalate hc with hc | ⟨l, hl, hc⟩
    · simp only [List.mem_singleton] at hc
      subst hc
      decide
    · obtain ⟨p, -, rfl⟩ := List.mem_map.1 hl
      rcases CpuPiece.mem_render hc with hc | rfl
      · exact CpuPiece.isWhiteSpace_of_isDigit hc
      · decide
  rw [CpuList.textPieces, htext, CpuPiece.trimChars_of_not_white hwhite]
  cases ps with
  | nil => rfl
  | cons p ps =>
    rw [List.splitOn_intercalate]
    · exact List.filter_eq_self.2 fun l hl => by
        obtain ⟨q, -, rfl⟩ := List.mem_map.1 hl
        simpa using CpuPiece.render_ne_nil q
    · intro l hl hcomma
      obtain ⟨q, -, rfl⟩ := List.mem_map.1 hl
      rcases CpuPiece.mem_render hcomma with h | h
      · simp [Char.isDigit] at h
      · simp at h
    · simp

/-- Every list of pieces in range, written and joined by commas, reads back as its cpus. -/
theorem parseCpuList_render {ps : List CpuPiece} (hps : ∀ p ∈ ps, p.InRange) :
    parseCpuList (",".intercalate (ps.map CpuPiece.render)) = some (ps.flatMap CpuPiece.cpus) := by
  rw [CpuList.parseCpuList_eq_some_iff]
  refine ⟨ps, ?_, rfl⟩
  rw [textPieces_render, List.forall₂_map_left_iff, List.forall₂_same]
  exact fun p hp => CpuPiece.pieceReads_render (hps p hp)

/-- Cpu-list texts read exactly by their grammar: a text reads when each of its pieces reads,
and then as the concatenation of the pieces' cpus; a piece of white space alone is refused;
and every list of pieces in range, written and joined by commas, reads back as its cpus. -/
theorem parseCpuList_grammar :
    (∀ text v, parseCpuList text = some v ↔
      ∃ ps, List.Forall₂ CpuList.PieceReads (CpuList.textPieces text) ps ∧
        v = ps.flatMap CpuPiece.cpus) ∧
    (∀ text, ∀ p ∈ CpuList.textPieces text, (∀ c ∈ p, Text.isWhiteSpace c = true) →
      parseCpuList text = none) ∧
    (∀ ps : List CpuPiece, (∀ p ∈ ps, p.InRange) →
      parseCpuList (",".intercalate (ps.map CpuPiece.render)) = some (ps.flatMap CpuPiece.cpus)) :=
  ⟨CpuList.parseCpuList_eq_some_iff, fun _ _ hp hb => CpuList.parseCpuList_blank hp hb,
    fun _ hps => parseCpuList_render hps⟩

/-- A sign is allowed and blanks around a number are trimmed, but a second hyphen is no
number. -/
example : parseCpuList " +3, 0 - 1,,1\n" = some [3, 0, 1, 1] ∧ parseCpuList "1--2" = none := by
  decide

end Fibers
