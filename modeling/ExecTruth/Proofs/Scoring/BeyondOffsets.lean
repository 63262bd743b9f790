import ExecTruth.Proofs.Scoring.Spans
import ExecTruth.Scoring.Detail

/-! # Beyond the offsets — static starts whose difference from the load base is no offset

    The executed instructions rule on every integer, whether it is an offset or not: one of
    them starts there, or the one next below reaches past it or not, or none starts below
    (`ruling`).  As long as a static start less the load base is an offset, the verdict on
    the start is that ruling (`verdict_eq_ruling`).

    The verdict does not look at a difference that is no offset, and knows of no
    instruction below it.  A difference that is too small has none below it, so this is the
    ruling still (`ruling_of_lowest`).  A difference that is too great lies above all
    executed instructions, of which the last one is the next below (`ruling_of_highest`).
    Load bases below zero bring it about, and then the verdict is another one, unless
    nothing was executed at all (`verdict_eq_ruling_iff`). -/

namespace ExecTruth.GroundTruth

variable {truth : GroundTruth} {static : Int64} {o : Int}

/-! ## Rulings -/

/-- The executed instruction that starts next below an integer. -/
def nextBelow? (truth : GroundTruth) (o : Int) : Option Instruction :=
  (truth.table.instructions.filter fun i => i.offset.toInt < o).getLast?

/-- What the executed instructions say about an integer. -/
def ruling (truth : GroundTruth) (o : Int) : Verdict :=
  if ∃ i ∈ truth.table.instructions, i.offset.toInt = o then .truePositive
  else
    match truth.nextBelow? o with
    | none => .unknown none
    | some i => if o < i.stop then .confirmedFalse i else .unknown (some i)

/-- For an offset, the instruction next below is the one that the table finds. -/
theorem nextBelow?_toInt (truth : GroundTruth) (o : Int64) :
    truth.nextBelow? o.toInt = (truth.table.below? o).map fun e => ⟨e.1, e.2⟩ := by
  rw [nextBelow?, SortedMap.below?_eq_getLast?_filter, SortedMap.instructions, List.filter_map,
    List.getLast?_map]
  rfl

/-- An executed instruction starts at an offset if the table has it. -/
theorem exists_offset_eq_iff (truth : GroundTruth) (o : Int64) :
    (∃ i ∈ truth.table.instructions, i.offset.toInt = o.toInt)
      ↔ truth.table.contains o = true := by
  rw [← SortedMap.mem_keys_iff]
  constructor
  · rintro ⟨i, hi, heq⟩
    rw [← Int64.toInt_inj.1 heq]
    exact List.mem_map_of_mem (f := Prod.fst) (mem_instructions_iff.1 hi)
  · intro hkey
    obtain ⟨e, he, rfl⟩ := List.mem_map.1 hkey
    exact ⟨⟨e.1, e.2⟩, mem_instructions_iff.2 he, rfl⟩

/-- Within the offsets the verdict is the ruling. -/
theorem verdict_eq_ruling {d : Int64} (hd : d.toInt = static.toInt - truth.base.toInt) :
    truth.verdict static = truth.ruling d.toInt := by
  cases hcontains : truth.table.contains d with
  | true =>
      rw [ruling, if_pos ((truth.exists_offset_eq_iff d).2 hcontains), verdict,
        Word.checkedSub_eq_some_iff.2 hd]
      exact if_pos hcontains
  | false =>
      have hnone : ¬ ∃ i ∈ truth.table.instructions, i.offset.toInt = d.toInt := by
        rw [exists_offset_eq_iff, hcontains]
        exact Bool.false_ne_true
      rw [ruling, if_neg hnone, nextBelow?_toInt, verdict_eq hd hcontains]
      cases hbelow : truth.table.below? d with
      | none => rfl
      | some e =>
          obtain ⟨-, hlt, -⟩ := SortedMap.below?_eq_some_iff.1 hbelow
          have hspans : Instruction.Spans ⟨e.1, e.2⟩ d
              ↔ d.toInt < Instruction.stop ⟨e.1, e.2⟩ := and_iff_right hlt
          show (if Instruction.Spans ⟨e.1, e.2⟩ d then _ else _) = if _ then _ else _
          -- what is next below starts below, so only its end is left to compare
          by_cases hstop : d.toInt < Instruction.stop ⟨e.1, e.2⟩
          · rw [if_pos (hspans.2 hstop), if_pos hstop]
          · rw [if_neg fun h => hstop (hspans.1 h), if_neg hstop]

/-- Below all executed instructions nothing is known, and no instruction is named. -/
theorem ruling_of_lowest (h : ∀ i ∈ truth.table.instructions, o < i.offset.toInt) :
    truth.ruling o = .unknown none := by
  have hnone : ¬ ∃ i ∈ truth.table.instructions, i.offset.toInt = o := by
    rintro ⟨i, hi, heq⟩
    have hlt := h i hi
    omega
  have hbelow : truth.nextBelow? o = none := by
    rw [nextBelow?, List.getLast?_eq_none_iff, List.filter_eq_nil_iff]
    intro i hi hlt
    have habove := h i hi
    rw [decide_eq_true_eq] at hlt
    omega
  rw [ruling, if_neg hnone, hbelow]

/-- Only there no instruction is named. -/
theorem ruling_eq_unknown_none_iff :
    truth.ruling o = .unknown none ↔ ∀ i ∈ truth.table.instructions, o < i.offset.toInt := by
  refine ⟨fun hruling i hi => ?_, ruling_of_lowest⟩
  -- an instruction at or below would be ruled upon
  by_contra hle
  unfold ruling at hruling
  split at hruling
  · exact nomatch hruling
  · next hnone =>
      cases hbelow : truth.nextBelow? o with
      | none =>
          rw [nextBelow?, List.getLast?_eq_none_iff, List.filter_eq_nil_iff] at hbelow
          have hnot := hbelow i hi
          rw [decide_eq_true_eq] at hnot
          exact hnone ⟨i, hi, by omega⟩
      | some j =>
          rw [hbelow] at hruling
          dsimp only at hruling
          split at hruling <;> exact nomatch hruling

/-- Above all executed instructions the last one rules. -/
theorem ruling_of_highest {last : Instruction}
    (h : ∀ i ∈ truth.table.instructions, i.offset.toInt < o)
    (hlast : truth.table.instructions.getLast? = some last) :
    truth.ruling o = if o < last.stop then .confirmedFalse last else .unknown (some last) := by
  have hnone : ¬ ∃ i ∈ truth.table.instructions, i.offset.toInt = o := by
    rintro ⟨i, hi, heq⟩
    have hlt := h i hi
    omega
  have hall : (truth.table.instructions.filter fun i => i.offset.toInt < o)
      = truth.table.instructions := by
    refine List.filter_eq_self.2 ?_
    intro i hi
    exact decide_eq_true (h i hi)
  rw [ruling, if_neg hnone, nextBelow?, hall, hlast]

/-! ## Verdicts -/

/-- The detail of a start that no executed instruction is told to be below. -/
def beforeFirst (static : Int64) : Detail :=
  ⟨.unknown, Word.hexPieces static ++ [" before first\n"]⟩

/-- Only a verdict without any instruction is written as one before the first. -/
theorem verdictDetail?_eq_beforeFirst_iff {v : Verdict} :
    truth.verdictDetail? static v = some (beforeFirst static) ↔ v = .unknown none := by
  cases v with
  | truePositive => exact iff_of_false nofun nofun
  | confirmedFalse c => simp [verdictDetail?, beforeFirst]
  | unknown p =>
      cases p with
      | none => exact iff_of_true rfl rfl
      | some p => simp [verdictDetail?, beforeFirst, Word.hexPieces]

/-- Every instruction is above an integer that is below all offsets. -/
theorem lt_of_below_offsets (ho : o < Int64.minValue.toInt) :
    ∀ i ∈ truth.table.instructions, o < i.offset.toInt := by
  intro i _
  exact Int.lt_of_lt_of_le ho (Int64.minValue_le_toInt i.offset)

/-- Every instruction is below an integer that is above all offsets. -/
theorem lt_of_above_offsets (ho : Int64.maxValue.toInt < o) :
    ∀ i ∈ truth.table.instructions, i.offset.toInt < o := by
  intro i _
  exact Int.lt_of_le_of_lt (Int64.toInt_le i.offset) ho

/-- A difference that is no offset is below all offsets or above all of them. -/
theorem checkedSub_eq_none_iff {a b : Int64} :
    Word.checkedSub a b = none ↔ a.toInt - b.toInt < Int64.minValue.toInt
      ∨ Int64.maxValue.toInt < a.toInt - b.toInt := by
  rw [Word.checkedSub, Word.offsetOfInt?]
  split
  · exact iff_of_false (Option.some_ne_none _) (by omega)
  · exact iff_of_true rfl (by omega)

/-- A difference that is no offset is given up without a look at the table. -/
theorem verdict_of_no_difference (h : Word.checkedSub static truth.base = none) :
    truth.verdict static = .unknown none := by
  rw [verdict, h]

/-- Up to the greatest offset the verdict is the ruling. -/
theorem verdict_eq_ruling_of_le
    (ho : static.toInt - truth.base.toInt ≤ Int64.maxValue.toInt) :
    truth.verdict static = truth.ruling (static.toInt - truth.base.toInt) := by
  cases hsub : Word.checkedSub static truth.base with
  | none =>
      have hlow : static.toInt - truth.base.toInt < Int64.minValue.toInt := by
        rcases checkedSub_eq_none_iff.1 hsub with h | h
        · exact h
        · exact absurd h (Int.not_lt.2 ho)
      rw [verdict_of_no_difference hsub, ruling_of_lowest (lt_of_below_offsets hlow)]
  | some d =>
      have hd := Word.checkedSub_eq_some_iff.1 hsub
      rw [verdict_eq_ruling hd, hd]

/-- Above the greatest offset it is so only if nothing was executed. -/
theorem verdict_eq_ruling_iff_of_lt
    (ho : Int64.maxValue.toInt < static.toInt - truth.base.toInt) :
    truth.verdict static = truth.ruling (static.toInt - truth.base.toInt)
      ↔ truth.table.instructions = [] := by
  rw [verdict_of_no_difference (checkedSub_eq_none_iff.2 (Or.inr ho)), eq_comm,
    ruling_eq_unknown_none_iff, List.eq_nil_iff_forall_not_mem]
  refine forall_congr' fun i => ?_
  constructor
  · intro habove hi
    exact Int.lt_asymm (habove hi) (lt_of_above_offsets ho i hi)
  · intro hnot hi
    exact absurd hi hnot

/-- **BEYOND THE OFFSETS**.  The verdict on a static start is the ruling on its difference
    from the load base exactly if that is not above all offsets, or nothing was executed.  A
    difference below all offsets is below all executed instructions, and the ruling is that
    nothing is known.  One above all offsets is above all executed instructions, and the
    last of them would be named, as one that the start lies inside of or behind; but none
    is.  The list of details places a start in front of the first instruction exactly if it is
    there, or else above all offsets. -/
theorem verdict_eq_ruling_iff (truth : GroundTruth) (static : Int64) :
    let o := static.toInt - truth.base.toInt
    (truth.verdict static = truth.ruling o
      ↔ o ≤ Int64.maxValue.toInt ∨ truth.table.instructions = [])
    ∧ (o < Int64.minValue.toInt →
      (∀ i ∈ truth.table.instructions, o < i.offset.toInt)
      ∧ truth.verdict static = .unknown none ∧ truth.ruling o = .unknown none)
    ∧ (Int64.maxValue.toInt < o →
      (∀ i ∈ truth.table.instructions, i.offset.toInt < o)
      ∧ truth.verdict static = .unknown none
      ∧ ∀ last, truth.table.instructions.getLast? = some last →
        truth.ruling o = if o < last.stop then .confirmedFalse last else .unknown (some last))
    ∧ (truth.verdictDetail? static (truth.verdict static) = some (beforeFirst static)
      ↔ (∀ i ∈ truth.table.instructions, o < i.offset.toInt) ∨ Int64.maxValue.toInt < o) := by
  intro o
  have hunknown : Int64.maxValue.toInt < o → truth.verdict static = .unknown none := by
    intro ho
    exact verdict_of_no_difference (checkedSub_eq_none_iff.2 (Or.inr ho))
  refine ⟨?_, fun ho => ?_, fun ho => ⟨lt_of_above_offsets ho, hunknown ho, ?_⟩, ?_⟩
  · by_cases ho : o ≤ Int64.maxValue.toInt
    · exact iff_of_true (verdict_eq_ruling_of_le ho) (Or.inl ho)
    · -- above all offsets the two agree only where there is nothing to name
      rw [or_iff_right ho]
      exact verdict_eq_ruling_iff_of_lt (Int.not_le.1 ho)
  · have hruling : truth.ruling o = .unknown none := ruling_of_lowest (lt_of_below_offsets ho)
    have hsmall : o ≤ Int64.maxValue.toInt := Int.le_trans (Int.le_of_lt ho) (by decide)
    exact ⟨lt_of_below_offsets ho, (verdict_eq_ruling_of_le hsmall).trans hruling, hruling⟩
  · intro last hlast
    exact ruling_of_highest (lt_of_above_offsets ho) hlast
  · rw [verdictDetail?_eq_beforeFirst_iff]
    by_cases ho : o ≤ Int64.maxValue.toInt
    · rw [verdict_eq_ruling_of_le ho, ruling_eq_unknown_none_iff]
      exact (or_iff_left (Int.not_lt.2 ho)).symm
    · exact iff_of_true (hunknown (Int.not_le.1 ho)) (Or.inr (Int.not_le.1 ho))

/-- The lowest start of all, at a load base above zero. -/
theorem verdict_eq_ruling_iff_lowest :
    let truth : GroundTruth := ⟨.ofList [(0x10, 2)], 0x400000⟩
    Int64.minValue.toInt - truth.base.toInt < Int64.minValue.toInt
    ∧ truth.verdict Int64.minValue = truth.ruling (Int64.minValue.toInt - truth.base.toInt)
    ∧ truth.verdictDetail? Int64.minValue (truth.verdict Int64.minValue)
      = some (beforeFirst Int64.minValue) := by
  intro truth
  have hlow : Int64.minValue.toInt - truth.base.toInt < Int64.minValue.toInt := by decide
  obtain ⟨hsame, hbelow, -, hline⟩ := verdict_eq_ruling_iff truth Int64.minValue
  exact ⟨hlow, hsame.2 (Or.inl (by decide)), hline.2 (Or.inl (hbelow hlow).1)⟩

/-- At load bases below zero: a start behind the last executed instruction, and one inside of
    it, are told to be in front of the first. -/
theorem verdict_ne_ruling_of_highest :
    let behind : GroundTruth := ⟨.ofList [(0x10, 2)], -0xa00000⟩
    let inside : GroundTruth := ⟨.ofList [(0x10, 2), (Int64.maxValue, 4)], -1⟩
    Word.checkedSub Int64.maxValue behind.base = none
    ∧ behind.ruling (Int64.maxValue.toInt - behind.base.toInt) = .unknown (some ⟨0x10, 2⟩)
    ∧ behind.verdict Int64.maxValue = .unknown none
    ∧ Word.checkedSub Int64.maxValue inside.base = none
    ∧ inside.ruling (Int64.maxValue.toInt - inside.base.toInt)
      = .confirmedFalse ⟨Int64.maxValue, 4⟩
    ∧ inside.verdict Int64.maxValue = .unknown none
    ∧ inside.verdictDetail? Int64.maxValue (inside.verdict Int64.maxValue)
      = some (beforeFirst Int64.maxValue) := by
  decide

end ExecTruth.GroundTruth
