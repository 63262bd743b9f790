import ExecTruth.Proofs.SortedMap
import ExecTruth.Scoring.Verdict

/-! # Spans — which static starts are told to lie inside an executed instruction

    A start that nothing executed at is wrong beyond doubt if it lies inside an executed
    instruction.  The verdict looks at one instruction only, the one that starts next
    below.  So what it tells to be wrong does lie inside an executed instruction, and it
    is told exactly of the instructions that nothing else starts inside of, up to the
    start in question (`verdict_of_unexecuted`).  That is all there is to tell as long
    as no executed instruction reaches past the end of a later one.

    Where a program jumps into the middle of an instruction that it also executes from
    its start, one may: then bytes of the longer one lie behind the end of the shorter
    one, and nothing is told of them (`verdict_behind_shorter`). -/

namespace ExecTruth

namespace Instruction

/-- The place behind the last byte of an instruction. -/
def stop (i : Instruction) : Int := i.offset.toInt + i.length.toNat

/-- The offset is inside the instruction, behind its start. -/
def Spans (i : Instruction) (o : Int64) : Prop :=
  i.offset.toInt < o.toInt ∧ o.toInt < i.stop

instance (i : Instruction) (o : Int64) : Decidable (i.Spans o) :=
  inferInstanceAs (Decidable (_ ∧ _))

end Instruction

namespace GroundTruth

variable {truth : GroundTruth} {i : Instruction} {static o : Int64}

/-- The instruction is the one that was executed next below the offset. -/
structure NextBelow (truth : GroundTruth) (o : Int64) (i : Instruction) : Prop where
  executed : i ∈ truth.table.instructions
  below : i.offset.toInt < o.toInt
  next : ∀ j ∈ truth.table.instructions, j.offset.toInt < o.toInt →
    j.offset.toInt ≤ i.offset.toInt

/-- No executed instruction reaches past the end of one that starts later. -/
def EndsInOrder (truth : GroundTruth) : Prop :=
  ∀ i ∈ truth.table.instructions, ∀ j ∈ truth.table.instructions,
    i.offset.toInt < j.offset.toInt → i.stop ≤ j.stop

instance (truth : GroundTruth) : Decidable truth.EndsInOrder :=
  inferInstanceAs (Decidable (∀ i ∈ _, ∀ j ∈ _, _))

/-- The instructions of a table are its entries. -/
theorem mem_instructions_iff :
    i ∈ truth.table.instructions ↔ (i.offset, i.length) ∈ truth.table.entries := by
  constructor
  · intro hi
    obtain ⟨e, he, rfl⟩ := List.mem_map.1 hi
    exact he
  · intro he
    exact List.mem_map.2 ⟨_, he, rfl⟩

/-- What the table finds below an offset is the instruction next below it. -/
theorem below?_eq_some_iff_nextBelow :
    truth.table.below? o = some (i.offset, i.length) ↔ truth.NextBelow o i := by
  rw [SortedMap.below?_eq_some_iff]
  constructor
  · rintro ⟨hmem, hbelow, hnext⟩
    exact ⟨mem_instructions_iff.2 hmem, hbelow, fun j hj hlt =>
      hnext (j.offset, j.length) (mem_instructions_iff.1 hj) hlt⟩
  · rintro ⟨hmem, hbelow, hnext⟩
    exact ⟨mem_instructions_iff.1 hmem, hbelow, fun e he hlt =>
      hnext ⟨e.1, e.2⟩ (mem_instructions_iff.2 he) hlt⟩

/-- An instruction that starts below an offset covers it if it spans it.  A distance that
    is no offset is greater than any length. -/
theorem covers_iff (hbelow : i.offset.toInt < o.toInt) : covers i o = true ↔ i.Spans o := by
  have hlength : i.length.toNat < 256 := i.length.toNat_lt
  rw [covers, Instruction.Spans, Instruction.stop]
  cases hsub : Word.checkedSub o i.offset with
  | none =>
      have hfar : Int64.maxValue.toInt < o.toInt - i.offset.toInt := by
        have hlow : Int64.minValue.toInt ≤ 0 := by decide
        rw [Word.checkedSub, Word.offsetOfInt?] at hsub
        split at hsub
        · exact nomatch hsub
        · omega
      have hmax : Int64.maxValue.toInt = 9223372036854775807 := by decide
      constructor
      · intro h
        exact nomatch h
      · rintro ⟨-, hstop⟩
        omega
  | some distance =>
      have hdistance := Word.checkedSub_eq_some_iff.1 hsub
      show decide (distance.toInt < i.length.toNat) = true ↔ _
      rw [decide_eq_true_eq, hdistance]
      omega

/-! ## Starts that nothing executed at -/

/-- The verdict on a start that nothing executed at depends on the instruction next below. -/
theorem verdict_eq (ho : o.toInt = static.toInt - truth.base.toInt)
    (hunexecuted : truth.table.contains o = false) :
    truth.verdict static = match truth.table.below? o with
      | none => .unknown none
      | some e => if Instruction.Spans ⟨e.1, e.2⟩ o then .confirmedFalse ⟨e.1, e.2⟩
          else .unknown (some ⟨e.1, e.2⟩) := by
  rw [verdict, Word.checkedSub_eq_some_iff.2 ho]
  dsimp only
  rw [if_neg (by simp [hunexecuted])]
  cases hbelow : truth.table.below? o with
  | none => rfl
  | some e =>
      obtain ⟨-, hlt, -⟩ := SortedMap.below?_eq_some_iff.1 hbelow
      have hcovers := covers_iff (i := ⟨e.1, e.2⟩) hlt
      by_cases hspans : Instruction.Spans ⟨e.1, e.2⟩ o
      · dsimp only
        rw [if_pos hspans, if_pos (hcovers.2 hspans)]
      · dsimp only
        rw [if_neg hspans, if_neg fun h => hspans (hcovers.1 h)]

/-- A start is told to lie inside the instruction next below if that spans it. -/
theorem verdict_eq_confirmedFalse_iff (ho : o.toInt = static.toInt - truth.base.toInt)
    (hunexecuted : truth.table.contains o = false) :
    truth.verdict static = .confirmedFalse i ↔ truth.NextBelow o i ∧ i.Spans o := by
  rw [verdict_eq ho hunexecuted, ← below?_eq_some_iff_nextBelow]
  cases truth.table.below? o with
  | none => exact iff_of_false nofun fun h => nomatch h.1
  | some e =>
      dsimp only
      by_cases hspans : Instruction.Spans ⟨e.1, e.2⟩ o
      · rw [if_pos hspans]
        constructor
        · intro h
          cases h
          exact ⟨rfl, hspans⟩
        · rintro ⟨h, -⟩
          cases h
          rfl
      · rw [if_neg hspans]
        refine iff_of_false nofun ?_
        rintro ⟨h, hi⟩
        cases h
        exact hspans hi

/-- Where it is not told to lie inside an instruction, nothing is known of a start that
    nothing executed at. -/
theorem exists_verdict_eq_unknown_iff (ho : o.toInt = static.toInt - truth.base.toInt)
    (hunexecuted : truth.table.contains o = false) :
    (∃ below, truth.verdict static = .unknown below)
      ↔ ¬ ∃ i, truth.verdict static = .confirmedFalse i := by
  rw [verdict_eq ho hunexecuted]
  cases truth.table.below? o with
  | none => simp
  | some e => dsimp only; split <;> simp

/-- If the ends of instructions come in order, an instruction that spans an offset lets the
    one next below it span it too. -/
theorem EndsInOrder.exists_nextBelow (horder : truth.EndsInOrder)
    (hi : i ∈ truth.table.instructions) (hspans : i.Spans o) :
    ∃ j, truth.NextBelow o j ∧ j.Spans o := by
  obtain ⟨hstart, hstop⟩ := hspans
  cases hbelow : truth.table.below? o with
  | none =>
      have hnot := SortedMap.below?_eq_none_iff.1 hbelow _ (mem_instructions_iff.1 hi)
      exact absurd hstart hnot
  | some e =>
      have hnext : truth.NextBelow o ⟨e.1, e.2⟩ := below?_eq_some_iff_nextBelow.1 hbelow
      have hle : i.offset.toInt ≤ e.1.toInt := hnext.next i hi hstart
      refine ⟨⟨e.1, e.2⟩, hnext, hnext.below, ?_⟩
      by_cases hsame : i.offset = e.1
      · -- the table holds one instruction for each start
        have hfind := SortedMap.find?_eq_some_iff.2 (mem_instructions_iff.1 hi)
        have hfind' := SortedMap.find?_eq_some_iff.2 (mem_instructions_iff.1 hnext.executed)
        have hlength : i.length = e.2 := by
          rw [hsame] at hfind
          exact Option.some.inj (hfind.symm.trans hfind')
        have heq : i = ⟨e.1, e.2⟩ := by
          rw [← hsame, ← hlength]
        rw [← heq]
        exact hstop
      · have hne : i.offset.toInt ≠ e.1.toInt := fun h => hsame (Int64.toInt_inj.1 h)
        have hlt : i.offset.toInt < e.1.toInt := by omega
        have hends := horder i hi ⟨e.1, e.2⟩ hnext.executed hlt
        omega

/-- **SPANS**.  Of a start that nothing executed at, it is told that it lies inside an
    executed instruction exactly if it does and no other one starts in between; else
    nothing is known.  If no executed instruction reaches past the end of a later one,
    this is told of every start inside an executed instruction. -/
theorem verdict_of_unexecuted (truth : GroundTruth) (static o : Int64)
    (ho : o.toInt = static.toInt - truth.base.toInt)
    (hunexecuted : truth.table.contains o = false) :
    (∀ i, truth.verdict static = .confirmedFalse i
      ↔ i ∈ truth.table.instructions ∧ i.Spans o ∧ ∀ j ∈ truth.table.instructions,
        i.offset.toInt < j.offset.toInt → ¬ j.offset.toInt < o.toInt)
    ∧ ((∃ below, truth.verdict static = .unknown below)
      ↔ ¬ ∃ i, truth.verdict static = .confirmedFalse i)
    ∧ (truth.EndsInOrder → ((∃ i, truth.verdict static = .confirmedFalse i)
      ↔ ∃ i ∈ truth.table.instructions, i.Spans o)) := by
  refine ⟨fun i => ?_, exists_verdict_eq_unknown_iff ho hunexecuted, fun horder => ?_⟩
  · rw [verdict_eq_confirmedFalse_iff ho hunexecuted]
    constructor
    · rintro ⟨hnext, hspans⟩
      refine ⟨hnext.executed, hspans, fun j hj hbehind hlt => ?_⟩
      have hle := hnext.next j hj hlt
      omega
    · rintro ⟨hi, hspans, hbetween⟩
      exact ⟨⟨hi, hspans.1, fun j hj hlt => Int.not_lt.1 fun h => hbetween j hj h hlt⟩, hspans⟩
  · constructor
    · rintro ⟨i, hi⟩
      obtain ⟨hnext, hspans⟩ := (verdict_eq_confirmedFalse_iff ho hunexecuted).1 hi
      exact ⟨i, hnext.executed, hspans⟩
    · rintro ⟨i, hi, hspans⟩
      obtain ⟨j, hj⟩ := horder.exists_nextBelow hi hspans
      exact ⟨j, (verdict_eq_confirmedFalse_iff ho hunexecuted).2 hj⟩

/-- An instruction that is executed from its start and from its middle: both end at the same
    place, so the start inside both is told to lie inside the later one. -/
theorem verdict_of_unexecuted_same_end :
    let truth : GroundTruth := ⟨.ofList [(0x10, 5), (0x12, 3)], 0x400000⟩
    (0x14 : Int64).toInt = (0x400014 : Int64).toInt - truth.base.toInt
    ∧ truth.table.contains 0x14 = false ∧ truth.EndsInOrder
    ∧ (∃ i, truth.verdict 0x400014 = .confirmedFalse i)
    ∧ truth.verdict 0x400014 = .confirmedFalse ⟨0x12, 3⟩ := by
  intro truth
  have ho : (0x14 : Int64).toInt = (0x400014 : Int64).toInt - truth.base.toInt := by decide
  have hunexecuted : truth.table.contains 0x14 = false := by decide
  have horder : truth.EndsInOrder := by decide
  obtain ⟨hconfirmed, -, hall⟩ := verdict_of_unexecuted truth 0x400014 0x14 ho hunexecuted
  exact ⟨ho, hunexecuted, horder, (hall horder).2 ⟨⟨0x10, 5⟩, by decide, by decide⟩,
    (hconfirmed ⟨0x12, 3⟩).2 ⟨by decide, by decide, by decide⟩⟩

/-- A start inside an executed instruction of which nothing is told: a shorter instruction was
    executed from the middle of that one, and ends in front of the start. -/
theorem verdict_behind_shorter :
    let truth : GroundTruth := ⟨.ofList [(0x10, 5), (0x12, 1)], 0⟩
    (0x14 : Int64).toInt = (0x14 : Int64).toInt - truth.base.toInt
    ∧ truth.table.contains 0x14 = false
    ∧ (∃ i ∈ truth.table.instructions, i.Spans 0x14)
    ∧ truth.verdict 0x14 = .unknown (some ⟨0x12, 1⟩) := by
  decide

end GroundTruth

end ExecTruth
