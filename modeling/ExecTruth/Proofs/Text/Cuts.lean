import ExecTruth.Text.Blank
import ExecTruth.Text.Lines
import Mathlib.Data.List.TakeWhile

/-! # Cuts — what a text or a list is cut into

    A list is cut once in front of the first separator (`cutOnce_eq_some_iff`), or at all of
    them into the parts that it is joined from (`cutAt_eq_iff`).  A text is cut into lines at
    its line feeds, and the last of them can be missing (`lines_append`, `lines_of_not_mem`).

    The blanks at either end of a text are cut off as far as they go
    (`exists_append_trimStart`, `exists_trimEnd_append`), and a word up to the first blank
    (`nextWord_of_end`). -/

namespace ExecTruth.Text

section Separators

variable {α : Type} [DecidableEq α] {sep : α} {l a b : List α} {parts : List (List α)}

/-- A list is cut at its first separator. -/
theorem cutOnce_eq_some_iff : cutOnce sep l = some (a, b) ↔ l = a ++ sep :: b ∧ sep ∉ a := by
  induction l generalizing a with
  | nil =>
      refine iff_of_false nofun ?_
      rintro ⟨h, -⟩
      exact absurd h (by simp)
  | cons c rest ih =>
      rw [cutOnce]
      by_cases hc : c = sep
      · rw [if_pos hc, Option.some.injEq, Prod.mk.injEq]
        constructor
        · rintro ⟨rfl, rfl⟩
          exact ⟨congrArg (· :: rest) hc, nofun⟩
        · rintro ⟨h, hnot⟩
          cases a with
          | nil => exact ⟨rfl, (List.cons.inj h).2⟩
          | cons c' a =>
              obtain ⟨hc', -⟩ := List.cons.inj h
              exact absurd List.mem_cons_self (hc'.symm.trans hc ▸ hnot)
      · rw [if_neg hc]
        cases a with
        | nil =>
            refine iff_of_false (fun h => ?_) fun h => hc (List.cons.inj h.1).1
            obtain ⟨_, -, heq⟩ := Option.map_eq_some_iff.1 h
            exact nomatch heq
        | cons c' a =>
            rw [Option.map_eq_some_iff, List.cons_append, List.cons.injEq, List.mem_cons, not_or]
            constructor
            · rintro ⟨pair, hpair, heq⟩
              cases heq
              obtain ⟨hrest, hnot⟩ := ih.1 hpair
              exact ⟨⟨rfl, hrest⟩, fun h => hc h.symm, hnot⟩
            · rintro ⟨⟨rfl, hrest⟩, -, hnot⟩
              exact ⟨(a, b), ih.2 ⟨hrest, hnot⟩, rfl⟩

/-- It is not cut if it has no separator. -/
theorem cutOnce_eq_none_iff : cutOnce sep l = none ↔ sep ∉ l := by
  constructor
  · intro h hmem
    obtain ⟨a, b, hl, hnot⟩ := List.eq_append_cons_of_mem hmem
    exact nomatch (cutOnce_eq_some_iff.2 ⟨hl, hnot⟩).symm.trans h
  · intro h
    refine Option.eq_none_iff_forall_ne_some.2 fun cut hcut => h ?_
    rw [(cutOnce_eq_some_iff.1 hcut).1]
    exact List.mem_append_right _ List.mem_cons_self

/-- What stands behind a cut list does not change where it is cut. -/
theorem cutOnce_append (h : cutOnce sep l = some (a, b)) (t : List α) :
    cutOnce sep (l ++ t) = some (a, b ++ t) := by
  obtain ⟨rfl, hnot⟩ := cutOnce_eq_some_iff.1 h
  exact cutOnce_eq_some_iff.2 ⟨List.append_assoc _ _ _, hnot⟩

/-- What stands in front of the first separator is cut off with it. -/
theorem mem_of_cutOnce {front back : List α} {c : α}
    (h : cutOnce sep (front ++ c :: back) = some (a, b)) (hfront : sep ∉ front) (hc : c ≠ sep) :
    c ∈ a := by
  -- the cut is behind the character, as no separator stands before it
  induction front generalizing a with
  | nil =>
      rw [List.nil_append, cutOnce, if_neg hc] at h
      obtain ⟨cut, -, heq⟩ := Option.map_eq_some_iff.1 h
      cases heq
      exact List.mem_cons_self
  | cons d front ih =>
      obtain ⟨hd, hrest⟩ := not_or.1 (List.mem_cons.not.1 hfront)
      rw [List.cons_append, cutOnce, if_neg fun heq => hd heq.symm] at h
      obtain ⟨cut, hcut, heq⟩ := Option.map_eq_some_iff.1 h
      cases heq
      exact List.mem_cons_of_mem d (ih hcut hrest)

/-- Cutting at every separator is the library's splitting. -/
theorem cutAt_eq_splitOn (sep : α) (l : List α) : cutAt sep l = l.splitOn sep := by
  induction l with
  | nil => rfl
  | cons c rest ih =>
      rw [cutAt, List.splitOn_cons_eq_if_modifyHead, ih]
      by_cases hc : c = sep
      · rw [if_pos hc, if_pos (beq_iff_eq.2 hc)]
      · rw [if_neg hc, if_neg fun h => hc (beq_iff_eq.1 h)]
        cases hparts : rest.splitOn sep with
        | nil => exact absurd hparts (List.splitOn_ne_nil sep rest)
        | cons w ws => rfl

/-- There is always a part, if only an empty one. -/
theorem cutAt_ne_nil (sep : α) (l : List α) : cutAt sep l ≠ [] := by
  rw [cutAt_eq_splitOn]
  exact List.splitOn_ne_nil sep l

/-- No part has a separator in it. -/
theorem not_mem_of_mem_cutAt {part : List α} (h : part ∈ cutAt sep l) : sep ∉ part := by
  induction l generalizing part with
  | nil =>
      rw [List.mem_singleton.1 h]
      exact nofun
  | cons c rest ih =>
      rw [cutAt] at h
      by_cases hc : c = sep
      · rw [if_pos hc] at h
        -- the part is a new one, or one that was there
        rcases List.mem_cons.1 h with rfl | h
        · exact nofun
        · exact ih h
      · rw [if_neg hc] at h
        cases hparts : cutAt sep rest with
        | nil => exact absurd hparts (cutAt_ne_nil sep rest)
        | cons w ws =>
            rw [hparts] at h ih
            rcases List.mem_cons.1 h with rfl | h
            · rw [List.mem_cons, not_or]
              exact ⟨fun heq => hc heq.symm, ih List.mem_cons_self⟩
            · exact ih (List.mem_cons_of_mem _ h)

/-- A list is cut into the parts without separators that it is joined from. -/
theorem cutAt_eq_iff : cutAt sep l = parts
    ↔ parts ≠ [] ∧ (∀ part ∈ parts, sep ∉ part) ∧ l = List.intercalate [sep] parts := by
  constructor
  · rintro rfl
    refine ⟨cutAt_ne_nil sep l, fun part hpart => not_mem_of_mem_cutAt hpart, ?_⟩
    rw [cutAt_eq_splitOn, List.intercalate_splitOn]
  · rintro ⟨hne, hparts, rfl⟩
    rw [cutAt_eq_splitOn, List.splitOn_intercalate sep hparts hne]

/-- What is put behind a list without a separator in it goes to the last part. -/
theorem cutAt_append {w : List α} (hw : sep ∉ w) (l : List α) :
    ∃ front last, cutAt sep l = front ++ [last] ∧ cutAt sep (l ++ w) = front ++ [last ++ w] := by
  induction l with
  | nil =>
      refine ⟨[], [], rfl, cutAt_eq_iff.2 ⟨List.cons_ne_nil _ _, fun part hpart => ?_, ?_⟩⟩
      · rwa [List.mem_singleton.1 hpart]
      · exact (List.append_nil w).symm
  | cons c rest ih =>
      obtain ⟨front, last, hrest, hall⟩ := ih
      rw [List.cons_append, cutAt, cutAt, hrest, hall]
      by_cases hc : c = sep
      · rw [if_pos hc, if_pos hc]
        exact ⟨[] :: front, last, rfl, rfl⟩
      · rw [if_neg hc, if_neg hc]
        -- what is appended has no separator, so it joins the last part
        cases front with
        | nil => exact ⟨[], c :: last, rfl, rfl⟩
        | cons part front => exact ⟨(c :: part) :: front, last, rfl, rfl⟩

end Separators

/-! ## Lines -/

section Lines

variable {line : List Char}

/-- Characters of an unfinished line are taken over as they come. -/
theorem linesAfter_append (h : '\n' ∉ line) (seen rest : List Char) :
    linesAfter seen (line ++ rest) = linesAfter (line.reverse ++ seen) rest := by
  induction line generalizing seen with
  | nil => rfl
  | cons c line ih =>
      obtain ⟨hc, hline⟩ := not_or.1 (List.mem_cons.not.1 h)
      rw [List.cons_append, linesAfter, if_neg fun heq => hc heq.symm, ih hline, List.reverse_cons,
        List.append_assoc]
      rfl

/-- A line is read up to its line feed, but for a carriage return in front of that. -/
theorem lines_append (h : '\n' ∉ line) (rest : List Char) :
    lines (line ++ '\n' :: rest) = endedLine line.reverse :: lines rest := by
  rw [lines, linesAfter_append h, List.append_nil]
  rfl

/-- A text without a line feed is one line. -/
theorem lines_of_not_mem (h : '\n' ∉ line) (hne : line ≠ []) : lines line = [line] := by
  have hread := linesAfter_append h [] []
  rw [List.append_nil, List.append_nil] at hread
  rw [lines, hread, linesAfter, if_neg (by simpa using hne), List.reverse_reverse]

/-- Of the end of a line, one carriage return is no part of it. -/
theorem endedLine_reverse_concat (line : List Char) (c : Char) :
    endedLine (line ++ [c]).reverse = if c = '\r' then line else line ++ [c] := by
  rw [List.reverse_concat]
  by_cases hc : c = '\r'
  · rw [if_pos hc, hc]
    exact List.reverse_reverse line
  · rw [if_neg hc, endedLine]
    · rw [List.reverse_cons, List.reverse_reverse]
    · rintro r heq
      exact hc (List.cons.inj heq).1

end Lines

/-! ## Blanks -/

section Blanks

variable {blanks s : List Char} {c : Char}

/-- The blanks by their places in the code. -/
theorem isBlank_iff : isBlank c = true ↔ 9 ≤ c.toNat ∧ c.toNat ≤ 13 ∨ c.toNat = 0x20
    ∨ c.toNat = 0x85 ∨ c.toNat = 0xA0 ∨ c.toNat = 0x1680
    ∨ 0x2000 ≤ c.toNat ∧ c.toNat ≤ 0x200A ∨ c.toNat = 0x2028 ∨ c.toNat = 0x2029
    ∨ c.toNat = 0x202F ∨ c.toNat = 0x205F ∨ c.toNat = 0x3000 := by
  simp only [isBlank, Bool.or_eq_true, Bool.and_eq_true, decide_eq_true_eq, beq_iff_eq, or_assoc]

theorem trimStart_append (h : ∀ c ∈ blanks, isBlank c = true) (s : List Char) :
    trimStart (blanks ++ s) = trimStart s := List.dropWhile_append_of_pos h

/-- Trimming stops at the first character that is no blank. -/
theorem trimStart_cons (h : isBlank c = false) (s : List Char) :
    trimStart (c :: s) = c :: s := List.dropWhile_cons_of_neg (by simp [h])

/-- A blank at the end stays, unless all in front of it is trimmed away. -/
theorem trimStart_concat (hc : isBlank c = true) (s : List Char) :
    trimStart (s ++ [c]) = if trimStart s = [] then [] else trimStart s ++ [c] := by
  have hnil : [c].dropWhile isBlank = [] := List.dropWhile_cons_of_pos hc
  rw [trimStart, List.dropWhile_append, hnil]
  by_cases h : trimStart s = []
  · rw [if_pos h]
    exact if_pos (List.isEmpty_iff.2 h)
  · rw [if_neg h]
    exact if_neg (List.isEmpty_iff.not.2 h)

/-- Blanks in front are cut off, up to a character that is none. -/
theorem exists_append_trimStart (s : List Char) :
    ∃ blanks, (∀ c ∈ blanks, isBlank c = true) ∧ s = blanks ++ trimStart s :=
  ⟨s.takeWhile isBlank, fun _ hc => List.mem_takeWhile_imp hc,
    List.takeWhile_append_dropWhile.symm⟩

theorem trimEnd_append (h : ∀ c ∈ blanks, isBlank c = true) (s : List Char) :
    trimEnd (s ++ blanks) = trimEnd s := by
  have hblanks : ∀ c ∈ blanks.reverse, isBlank c = true := fun c hc => h c (List.mem_reverse.1 hc)
  rw [trimEnd, List.reverse_append, List.dropWhile_append_of_pos hblanks, trimEnd]

/-- What is trimmed at the end ends with no blank. -/
theorem isBlank_of_mem_getLast?_trimEnd (h : c ∈ (trimEnd s).getLast?) : isBlank c = false := by
  have hhead := List.head?_dropWhile_not isBlank s.reverse
  rw [trimEnd, List.getLast?_reverse] at h
  rw [Option.mem_def.1 h] at hhead
  exact hhead

/-- Blanks behind are cut off, down to a character that is none. -/
theorem exists_trimEnd_append (s : List Char) :
    ∃ blanks, (∀ c ∈ blanks, isBlank c = true) ∧ s = trimEnd s ++ blanks := by
  obtain ⟨blanks, hblanks, hs⟩ := exists_append_trimStart s.reverse
  refine ⟨blanks.reverse, fun c hc => hblanks c (List.mem_reverse.1 hc), ?_⟩
  rw [← List.reverse_inj, List.reverse_append, List.reverse_reverse, trimEnd, List.reverse_reverse]
  exact hs

/-- The first word goes up to the first blank, or up to the end. -/
theorem nextWord_of_end {w rest : List Char} (hw : w ≠ []) (hword : ∀ c ∈ w, isBlank c = false)
    (hrest : ∀ c ∈ rest.head?, isBlank c = true) :
    nextWord (w ++ rest) = some (w, rest.drop 1) := by
  have hsolid : ∀ c ∈ w, (!isBlank c) = true := by simpa using hword
  -- the word is not taken on behind its end
  have hstop : rest.takeWhile (!isBlank ·) = [] ∧ rest.dropWhile (!isBlank ·) = rest := by
    cases rest with
    | nil => exact ⟨rfl, rfl⟩
    | cons c rest =>
        have hc : ¬ (!isBlank c) = true := by simp [hrest c rfl]
        exact ⟨List.takeWhile_cons_of_neg hc, List.dropWhile_cons_of_neg hc⟩
  have htake : (w ++ rest).takeWhile (!isBlank ·) = w := by
    rw [List.takeWhile_append_of_pos hsolid, hstop.1, List.append_nil]
  have hdrop : (w ++ rest).dropWhile (!isBlank ·) = rest := by
    rw [List.dropWhile_append_of_pos hsolid, hstop.2]
  cases w with
  | nil => exact absurd rfl hw
  | cons d w =>
      rw [List.cons_append] at htake hdrop ⊢
      rw [nextWord, trimStart_cons (hword d List.mem_cons_self)]
      dsimp only
      rw [htake, hdrop]

end Blanks

end ExecTruth.Text
