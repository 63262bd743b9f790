import ExecTruth.Proofs.Text.Cuts

/-! # Words — the maximal runs of a text that have no blanks

    A text is read word by word with a cursor that is put behind the one blank a word ends
    at.  What is read are the maximal runs of other characters, in their order, however many
    blanks there are between them (`Words`), and what is left behind the last one differs
    from what the cursor leaves by a blank that no later reading sees (`exists_words`,
    `Words.uncons`).

    The text without the blanks around it is the part between them that neither starts nor
    ends with one (`trim_eq_iff`). -/

namespace ExecTruth.Text

variable {blanks s w rest tail core : List Char} {words : List (List Char)} {c : Char}

/-- There are only blanks. -/
def Blanks (s : List Char) : Prop := ∀ c ∈ s, isBlank c = true

instance (s : List Char) : Decidable (Blanks s) :=
  decidable_of_iff (s.all isBlank = true) List.all_eq_true

/-- There are characters, and none of them is a blank. -/
def Solid (w : List Char) : Prop := w ≠ [] ∧ ∀ c ∈ w, isBlank c = false

instance (w : List Char) : Decidable (Solid w) :=
  decidable_of_iff (w ≠ [] ∧ w.all (!isBlank ·) = true) (by simp [Solid])

/-- A word in front of the text ends there. -/
def EndsWord (rest : List Char) : Prop := ∀ c ∈ rest.head?, isBlank c = true

/-- The first words of a text, and what follows the last of them. -/
inductive Words : List Char → List (List Char) → List Char → Prop where
  | nil (rest : List Char) : Words rest [] rest
  | cons {blanks w rest tail : List Char} {words : List (List Char)} (hblanks : Blanks blanks)
      (hw : Solid w) (hrest : EndsWord rest) (hwords : Words rest words tail) :
      Words (blanks ++ (w ++ rest)) (w :: words) tail

/-! ## Words -/

/-- Blanks end a word, whatever follows them. -/
theorem endsWord_append (hne : blanks ≠ []) (h : Blanks blanks) (s : List Char) :
    EndsWord (blanks ++ s) := by
  intro c hc
  cases blanks with
  | nil => exact absurd rfl hne
  | cons b rest =>
      rw [← Option.some.inj hc]
      exact h b List.mem_cons_self

/-- A word has no blanks in front to be trimmed. -/
theorem trimStart_solid (hw : Solid w) (s : List Char) : trimStart (w ++ s) = w ++ s := by
  cases w with
  | nil => exact absurd rfl hw.1
  | cons c w => exact trimStart_cons (hw.2 c List.mem_cons_self) _

/-- The blank in front of a text is not seen by what skips blanks. -/
theorem trimStart_drop (h : EndsWord rest) : trimStart (rest.drop 1) = trimStart rest := by
  cases rest with
  | nil => rfl
  | cons c rest => exact (trimStart_append (List.forall_mem_singleton.2 (h c rfl)) rest).symm

theorem trim_drop (h : EndsWord rest) : trim (rest.drop 1) = trim rest := by
  rw [trim, trimStart_drop h, trim]

/-- The next word does not depend on the blanks in front of it. -/
theorem nextWord_congr {t : List Char} (h : trimStart s = trimStart t) :
    nextWord s = nextWord t := by
  rw [nextWord, h, nextWord]

/-- What is trimmed in front begins with no blank. -/
theorem isBlank_of_mem_head?_trimStart (h : c ∈ (trimStart s).head?) : isBlank c = false := by
  have hhead := List.head?_dropWhile_not isBlank s
  rw [trimStart] at h
  rw [Option.mem_def.1 h] at hhead
  exact hhead

theorem nextWord_drop (h : EndsWord rest) : nextWord (rest.drop 1) = nextWord rest :=
  nextWord_congr (trimStart_drop h)

/-- The next word is the first maximal run of characters that are no blanks. -/
theorem nextWord_eq_some_iff {r : List Char} : nextWord s = some (w, r)
    ↔ ∃ blanks rest, s = blanks ++ (w ++ rest) ∧ Blanks blanks ∧ Solid w ∧ EndsWord rest
        ∧ r = rest.drop 1 := by
  constructor
  · intro h
    obtain ⟨blanks, hblanks, hs⟩ := exists_append_trimStart s
    rw [nextWord] at h
    cases htrim : trimStart s with
    | nil =>
        rw [htrim] at h
        cases h
    | cons c t =>
        rw [htrim] at h hs
        obtain ⟨rfl, rfl⟩ := Prod.mk.inj (Option.some.inj h)
        have hc : isBlank c = false := isBlank_of_mem_head?_trimStart (by rw [htrim]; rfl)
        refine ⟨blanks, (c :: t).dropWhile (!isBlank ·), ?_, hblanks, ⟨?_, ?_⟩, ?_, rfl⟩
        · rw [List.takeWhile_append_dropWhile]
          exact hs
        · rw [List.takeWhile_cons_of_pos (by simp [hc])]
          exact List.cons_ne_nil _ _
        · intro d hd
          simpa using List.mem_takeWhile_imp hd
        · intro d hd
          have hstop := List.head?_dropWhile_not (!isBlank ·) (c :: t)
          rw [Option.mem_def.1 hd] at hstop
          simpa using hstop
  · rintro ⟨blanks, rest, rfl, hblanks, hw, hrest, rfl⟩
    rw [nextWord_congr (trimStart_append hblanks (w ++ rest))]
    exact nextWord_of_end hw.1 hw.2 hrest

/-- What a word is read from goes on with the words behind it. -/
theorem exists_words {r : List Char} (h : nextWord s = some (w, r)) :
    ∃ rest, EndsWord rest ∧ r = rest.drop 1
      ∧ ∀ {words tail}, Words rest words tail → Words s (w :: words) tail := by
  obtain ⟨blanks, rest, rfl, hblanks, hw, hrest, rfl⟩ := nextWord_eq_some_iff.1 h
  exact ⟨rest, hrest, rfl, .cons hblanks hw hrest⟩

/-- The first word is read, and the others are those behind it. -/
theorem Words.uncons (h : Words s (w :: words) tail) :
    ∃ rest, EndsWord rest ∧ nextWord s = some (w, rest.drop 1) ∧ Words rest words tail := by
  cases h with
  | @cons blanks _ rest _ _ hblanks hw hrest hwords =>
      refine ⟨rest, hrest, nextWord_eq_some_iff.2 ?_, hwords⟩
      exact ⟨blanks, rest, rfl, hblanks, hw, hrest, rfl⟩

/-! ## The part between the outer blanks -/

/-- The part neither starts nor ends with a blank. -/
def Bare (core : List Char) : Prop :=
  (∀ c ∈ core.head?, isBlank c = false) ∧ ∀ c ∈ core.getLast?, isBlank c = false

instance (core : List Char) : Decidable (Bare core) :=
  decidable_of_iff (core.head?.all (!isBlank ·) = true ∧ core.getLast?.all (!isBlank ·) = true)
    (by simp [Bare, Option.all_eq_true])

/-- Where no blank stands in front, nothing is trimmed there. -/
theorem trimStart_of_head (h : ∀ c ∈ s.head?, isBlank c = false) : trimStart s = s := by
  cases s with
  | nil => rfl
  | cons c rest => exact trimStart_cons (h c rfl) rest

/-- Where no blank stands at the end, nothing is trimmed there. -/
theorem trimEnd_of_last (h : ∀ c ∈ s.getLast?, isBlank c = false) : trimEnd s = s := by
  rw [← List.head?_reverse] at h
  show (trimStart s.reverse).reverse = s
  rw [trimStart_of_head h, List.reverse_reverse]

/-- The blanks around a text are cut off, and no others. -/
theorem trim_eq_iff : trim s = core
    ↔ ∃ front back, s = front ++ (core ++ back) ∧ Blanks front ∧ Blanks back ∧ Bare core := by
  constructor
  · rintro rfl
    obtain ⟨front, hfront, hs⟩ := exists_append_trimStart s
    obtain ⟨back, hback, hmid⟩ := exists_trimEnd_append (trimStart s)
    refine ⟨front, back, hs.trans (congrArg (front ++ ·) hmid), hfront, hback, ?_, ?_⟩
    · intro c hc
      refine isBlank_of_mem_head?_trimStart (s := s) ?_
      rw [hmid, List.head?_append, ← trim, Option.mem_def.1 hc]
      rfl
    · intro c hc
      exact isBlank_of_mem_getLast?_trimEnd hc
  · rintro ⟨front, back, rfl, hfront, hback, hhead, hlast⟩
    -- no blank is left at either end of the core, so trimming stops there
    rw [trim, trimStart_append hfront]
    cases core with
    | nil =>
        rw [List.nil_append, ← List.append_nil back, trimStart_append hback]
        rfl
    | cons c rest =>
        rw [List.cons_append, trimStart_cons (hhead c rfl), ← List.cons_append,
          trimEnd_append hback, trimEnd_of_last hlast]

end ExecTruth.Text
