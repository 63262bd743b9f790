import ExecTruth.Proofs.Text.Words
import ExecTruth.Text.Numeral
import Mathlib.Algebra.Group.Nat.Defs
import Mathlib.Data.List.Induction

/-! # Numerals — which texts are read as a number

    A number is read from its digits with zeros in front or not, whatever the case of the
    letters among them, and from nothing else (`numeral?_eq_some_iff`).  Where a sign is
    admitted, it can be left out (`word?_eq_some_iff`). -/

namespace ExecTruth.Text

variable {radix n d : Nat} {c : Char} {s : List Char}

/-- Numbers of the base are written in the digits of hexadecimal. -/
structure Radix (radix : Nat) : Prop where
  one_lt : 1 < radix
  le_sixteen : radix ≤ 16

theorem Radix.pos (hr : Radix radix) : 0 < radix := Nat.zero_lt_of_lt hr.one_lt

theorem radix_sixteen : Radix 16 := ⟨by decide, Nat.le_refl 16⟩

theorem radix_ten : Radix 10 := ⟨by decide, by decide⟩

/-- The text spells the number: its digits, with zeros in front or not, in small letters or
    capitals. -/
def Spells (radix : Nat) (s : List Char) (n : Nat) : Prop :=
  ∃ zeros, s.map Char.toLower = List.replicate zeros '0' ++ Nat.toDigits radix n

theorem Spells.ne_nil (h : Spells radix s n) : s ≠ [] := by
  rintro rfl
  obtain ⟨zeros, hs⟩ := h
  exact absurd (List.append_eq_nil_iff.1 hs.symm).2 Nat.toDigits_ne_nil

/-! ## Digits -/

/-- Only the letters from `A` to `Z` have another letter in lower case. -/
theorem toNat_toLower (c : Char) :
    c.toLower.toNat = if 65 ≤ c.toNat ∧ c.toNat ≤ 90 then c.toNat + 32 else c.toNat := by
  unfold Char.toLower
  split
  · next h =>
      have hlow : 65 ≤ c.toNat := h.1
      have hhigh : c.val.toNat ≤ 90 := h.2
      rw [if_pos ⟨hlow, hhigh⟩]
      show (c.val.toNat + 32) % 2 ^ 32 = c.val.toNat + 32
      omega
  · next h =>
      rw [if_neg]
      rintro ⟨hlow, hhigh⟩
      exact h ⟨hlow, hhigh⟩

/-- The ten digits stand in one row of the code, and the six letters in another. -/
theorem toNat_digitChar :
    ∀ d < 16, (Nat.digitChar d).toNat = if d < 10 then 48 + d else 87 + d := by
  decide

/-- The value of a digit is told by where its character stands in the code, in either case. -/
theorem digitValue?_eq (c : Char) :
    digitValue? c = if 48 ≤ c.toNat ∧ c.toNat ≤ 57 then some (c.toNat - 48)
      else if 97 ≤ c.toNat ∧ c.toNat ≤ 102 then some (c.toNat - 97 + 10)
      else if 65 ≤ c.toNat ∧ c.toNat ≤ 70 then some (c.toNat - 65 + 10) else none := by
  have hle : ∀ a b : Char, a ≤ b ↔ a.toNat ≤ b.toNat := fun _ _ => Iff.rfl
  simp only [digitValue?, Bool.and_eq_true, decide_eq_true_eq, hle]
  rfl

/-- A character has the value of the digit that it is, but for the case of a letter. -/
theorem digitValue?_eq_some_iff :
    digitValue? c = some d ↔ d < 16 ∧ c.toLower = Nat.digitChar d := by
  by_cases hd : d < 16
  · rw [and_iff_right hd, ← Char.toNat_inj, toNat_toLower, toNat_digitChar d hd, digitValue?_eq]
    split_ifs <;> simp only [Option.some.injEq, false_iff] <;> omega
  · refine iff_of_false (fun h => hd ?_) fun h => hd h.1
    rw [digitValue?_eq] at h
    split_ifs at h <;> simp only [Option.some.injEq] at h <;> omega

/-- A character is a digit if in lower case it is the one that is written for the value. -/
theorem digit?_eq_some_iff (hr : radix ≤ 16) :
    digit? radix c = some d ↔ d < radix ∧ c.toLower = Nat.digitChar d := by
  rw [digit?, Option.filter_eq_some_iff, digitValue?_eq_some_iff, decide_eq_true_eq]
  constructor
  · rintro ⟨⟨-, hc⟩, hd⟩
    exact ⟨hd, hc⟩
  · rintro ⟨hd, hc⟩
    exact ⟨⟨Nat.lt_of_lt_of_le hd hr, hc⟩, hd⟩

/-- The characters that a number is written in are digits. -/
theorem exists_digitChar_of_mem (hr : 1 < radix) (hc : c ∈ Nat.toDigits radix n) :
    ∃ d < radix, c = Nat.digitChar d := by
  induction n using Nat.strongRecOn with
  | ind n ih =>
      by_cases hlt : n < radix
      · rw [Nat.toDigits_of_lt_base hlt, List.mem_singleton] at hc
        exact ⟨n, hlt, hc⟩
      · rw [Nat.toDigits_of_base_le hr (Nat.not_lt.1 hlt), List.mem_append] at hc
        rcases hc with hc | hc
        · exact ih (n / radix) (Nat.div_lt_self (by omega) hr) hc
        · exact ⟨n % radix, Nat.mod_lt n (by omega), List.mem_singleton.1 hc⟩

/-! ## Numbers -/

/-- The digits in front are worth what they are worth to those behind them. -/
theorem digitsValue?_append (radix high : Nat) (s t : List Char) :
    digitsValue? radix high (s ++ t)
      = (digitsValue? radix high s).bind fun n => digitsValue? radix n t := by
  induction s generalizing high with
  | nil => rfl
  | cons c rest ih =>
      show (digit? radix c).bind _ = ((digit? radix c).bind _).bind _
      rw [Option.bind_assoc]
      exact congrArg _ (funext fun d => ih (high * radix + d))

/-- Digits behind a number that is not zero are the further digits of the number read. -/
theorem toDigits_of_digitsValue? {high : Nat} (hr : Radix radix)
    (hhigh : 0 < high) (h : digitsValue? radix high s = some n) :
    Nat.toDigits radix high ++ s.map Char.toLower = Nat.toDigits radix n := by
  -- `high` is the value so far, and not zero, so that its digits have no zero in front
  induction s generalizing high with
  | nil =>
      rw [Option.some.inj h]
      exact List.append_nil _
  | cons c rest ih =>
      obtain ⟨d, hd, hrest⟩ := Option.bind_eq_some_iff.1 h
      obtain ⟨hlt, hc⟩ := (digit?_eq_some_iff hr.le_sixteen).1 hd
      have hpos : 0 < high * radix := Nat.mul_pos hhigh hr.pos
      have hnext : Nat.toDigits radix (high * radix + d) ++ rest.map Char.toLower
          = Nat.toDigits radix n := ih (by omega) hrest
      rw [← hnext, Nat.mul_comm high, ← Nat.toDigits_append_toDigits hr.one_lt hhigh hlt,
        Nat.toDigits_of_lt_base hlt, List.append_assoc, List.map_cons, hc]
      rfl

/-- Digits that have a value are a numeral of it, leading zeros being no matter. -/
theorem spells_of_digitsValue? (hr : Radix radix) (hs : s ≠ [])
    (h : digitsValue? radix 0 s = some n) : Spells radix s n := by
  induction s with
  | nil => exact absurd rfl hs
  | cons c rest ih =>
      obtain ⟨d, hd, hrest⟩ := Option.bind_eq_some_iff.1 h
      obtain ⟨hlt, hc⟩ := (digit?_eq_some_iff hr.le_sixteen).1 hd
      rw [Nat.zero_mul, Nat.zero_add] at hrest
      -- a leading zero is counted with those in front; at the first other digit the number begins
      by_cases hzero : d = 0
      · subst hzero
        cases rest with
        | nil =>
            rw [← Option.some.inj hrest]
            exact ⟨0, by rw [List.map_cons, hc, Nat.toDigits_zero]; rfl⟩
        | cons c' rest =>
            obtain ⟨zeros, hzeros⟩ := ih (List.cons_ne_nil _ _) hrest
            refine ⟨zeros + 1, ?_⟩
            rw [List.map_cons, hc, hzeros]
            rfl
      · have hdigits := toDigits_of_digitsValue? hr (Nat.pos_of_ne_zero hzero) hrest
        refine ⟨0, ?_⟩
        rw [← hdigits, Nat.toDigits_of_lt_base hlt, List.map_cons, hc]
        rfl

/-- A number that is written in digits, in either case, is read back. -/
theorem digitsValue?_of_toDigits (hr : Radix radix)
    (h : s.map Char.toLower = Nat.toDigits radix n) : digitsValue? radix 0 s = some n := by
  induction n using Nat.strongRecOn generalizing s with
  | ind n ih =>
      by_cases hlt : n < radix
      · rw [Nat.toDigits_of_lt_base hlt, List.map_eq_singleton_iff] at h
        obtain ⟨c, rfl, hc⟩ := h
        show (digit? radix c).bind _ = _
        rw [(digit?_eq_some_iff hr.le_sixteen).2 ⟨hlt, hc⟩]
        exact congrArg some (by omega)
      · -- the last digit is read behind all others
        rw [Nat.toDigits_of_base_le hr.one_lt (Nat.not_lt.1 hlt), List.map_eq_append_iff] at h
        obtain ⟨front, last, rfl, hfront, hlast⟩ := h
        obtain ⟨c, rfl, hc⟩ := List.map_eq_singleton_iff.1 hlast
        have hn : 0 < n := Nat.lt_of_lt_of_le hr.pos (Nat.not_lt.1 hlt)
        have hmod : n % radix < radix := Nat.mod_lt n hr.pos
        rw [digitsValue?_append, ih (n / radix) (Nat.div_lt_self hn hr.one_lt) hfront]
        show (digit? radix c).bind _ = _
        rw [(digit?_eq_some_iff hr.le_sixteen).2 ⟨hmod, hc⟩]
        exact congrArg some (Nat.div_add_mod' n radix)

/-- A number is read from what spells it. -/
theorem numeral?_eq_some_iff (hr : Radix radix) :
    numeral? radix s = some n ↔ Spells radix s n := by
  constructor
  · intro h
    cases s with
    | nil => exact nomatch h
    | cons c rest => exact spells_of_digitsValue? hr (List.cons_ne_nil c rest) h
  · rintro ⟨zeros, hs⟩
    have hvalue : digitsValue? radix 0 s = some n := by
      -- each zero in front leaves the value at zero
      induction zeros generalizing s with
      | zero => exact digitsValue?_of_toDigits hr hs
      | succ zeros ih =>
          obtain ⟨c, rest, rfl, hc, hrest⟩ := List.map_eq_cons_iff.1 hs
          show (digit? radix c).bind _ = _
          rw [(digit?_eq_some_iff hr.le_sixteen).2 ⟨hr.pos, hc⟩]
          show digitsValue? radix (0 * radix + 0) rest = some n
          rw [Nat.zero_mul]
          exact ih hrest
    cases s with
    | nil => exact absurd rfl (Spells.ne_nil ⟨zeros, hs⟩)
    | cons c rest => exact hvalue

/-- Every character of digits that have a value is a digit. -/
theorem exists_digit?_of_mem {high : Nat} (h : digitsValue? radix high s = some n) (hc : c ∈ s) :
    ∃ d, digit? radix c = some d := by
  induction s generalizing high with
  | nil => exact nomatch hc
  | cons c' rest ih =>
      obtain ⟨d, hd, hrest⟩ := Option.bind_eq_some_iff.1 h
      rcases List.mem_cons.1 hc with rfl | hc
      · exact ⟨d, hd⟩
      · exact ih hrest hc

theorem Spells.exists_digitValue? (hr : Radix radix) (h : Spells radix s n)
    (hc : c ∈ s) : ∃ d, digitValue? c = some d := by
  have hvalue := (numeral?_eq_some_iff hr).2 h
  cases s with
  | nil => exact nomatch hc
  | cons c' rest =>
      obtain ⟨d, hd⟩ := exists_digit?_of_mem hvalue hc
      exact ⟨d, (Option.filter_eq_some_iff.1 hd).1⟩

/-- What spells a number has no characters but ASCII digits and letters. -/
theorem Spells.toNat_of_mem (hr : Radix radix) (h : Spells radix s n)
    (hc : c ∈ s) : 48 ≤ c.toNat ∧ c.toNat ≤ 57 ∨ 97 ≤ c.toNat ∧ c.toNat ≤ 102
      ∨ 65 ≤ c.toNat ∧ c.toNat ≤ 70 := by
  obtain ⟨d, hd⟩ := h.exists_digitValue? hr hc
  rw [digitValue?_eq] at hd
  split_ifs at hd with hdecimal hsmall hcapital
  · exact Or.inl hdecimal
  · exact Or.inr (Or.inl hsmall)
  · exact Or.inr (Or.inr hcapital)

theorem Spells.notMem (hr : Radix radix) (h : Spells radix s n)
    (hc : digitValue? c = none) : c ∉ s := by
  intro hmem
  obtain ⟨d, hd⟩ := h.exists_digitValue? hr hmem
  exact nomatch hc.symm.trans hd

/-- There is no blank in a numeral. -/
theorem Spells.isBlank_of_mem (hr : Radix radix) (h : Spells radix s n)
    (hc : c ∈ s) : isBlank c = false := by
  have hchar := h.toNat_of_mem hr hc
  rw [Bool.eq_false_iff, Ne, isBlank_iff]
  omega

/-- So a numeral is a word. -/
theorem Spells.solid (hr : Radix radix) (h : Spells radix s n) : Solid s :=
  ⟨h.ne_nil, fun _ hc => h.isBlank_of_mem hr hc⟩

/-! ## Words -/

/-- The text is a number that a word can hold, behind a plus or not. -/
def SpellsWord (radix : Nat) (s : List Char) (n : Nat) : Prop :=
  n < 2 ^ 64 ∧ ∃ digits, (s = digits ∨ s = '+' :: digits) ∧ Spells radix digits n

/-- And so is one with a prefix. -/
theorem SpellsWord.solid (hr : Radix radix) (h : SpellsWord radix s n) :
    Solid s := by
  obtain ⟨-, digits, rfl | rfl, hdigits⟩ := h
  · exact hdigits.solid hr
  · exact ⟨List.cons_ne_nil _ _, List.forall_mem_cons.2 ⟨rfl, (hdigits.solid hr).2⟩⟩

/-- No digit is a sign. -/
theorem not_spells_plus (hr : Radix radix) (s : List Char) (n : Nat) :
    ¬ Spells radix ('+' :: s) n := fun h => h.notMem hr (c := '+') rfl List.mem_cons_self

/-- A numeral is read as a word if its number is one. -/
theorem bind_numeral?_eq_some_iff (hr : Radix radix) {w : UInt64} :
    ((numeral? radix s).bind fun n => if n < UInt64.size then some n.toUInt64 else none) = some w
      ↔ Spells radix s w.toNat := by
  rw [← numeral?_eq_some_iff hr, Option.bind_eq_some_iff]
  constructor
  · rintro ⟨n, hn, hw⟩
    split at hw
    · next hlt =>
        rw [← Option.some.inj hw, hn]
        exact congrArg some (Nat.mod_eq_of_lt hlt).symm
    · exact nomatch hw
  · intro h
    refine ⟨w.toNat, h, ?_⟩
    rw [if_pos w.toNat_lt]
    exact congrArg some UInt64.ofNat_toNat

/-- A word is read from what is a number that it can hold, and from nothing else. -/
theorem word?_eq_some_iff (hr : Radix radix) {w : UInt64} :
    word? radix s = some w ↔ SpellsWord radix s w.toNat := by
  rw [SpellsWord, and_iff_right w.toNat_lt]
  -- no numeral begins with a plus, so a text with one is read without it
  by_cases hplus : ∃ r, s = '+' :: r
  · obtain ⟨r, rfl⟩ := hplus
    rw [word?, bind_numeral?_eq_some_iff hr]
    constructor
    · intro h
      exact ⟨r, Or.inr rfl, h⟩
    · rintro ⟨digits, rfl | hs, h⟩
      · exact absurd h (not_spells_plus hr r w.toNat)
      · rwa [(List.cons.inj hs).2]
  · rw [word?, bind_numeral?_eq_some_iff hr]
    · constructor
      · intro h
        exact ⟨s, Or.inl rfl, h⟩
      · rintro ⟨digits, rfl | hs, h⟩
        · exact h
        · exact absurd ⟨digits, hs⟩ hplus
    · exact fun r hs => hplus ⟨r, hs⟩

theorem word?_of_spells {w : UInt64} (hr : Radix radix)
    (h : Spells radix s w.toNat) : word? radix s = some w :=
  (word?_eq_some_iff hr).2 ⟨w.toNat_lt, s, Or.inl rfl, h⟩

end ExecTruth.Text
