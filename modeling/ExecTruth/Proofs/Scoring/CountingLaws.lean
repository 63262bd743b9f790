import ExecTruth.Proofs.Scoring.DetailLists
import ExecTruth.Proofs.SortedMap
import Mathlib.Data.Finset.Card
import Mathlib.Data.Finset.Image

/-! # Counting laws — what the numbers of an evaluation are numbers of

    The verdicts take the load base off the static starts, and looking for missed
    instructions adds it to the executed ones; either may leave the range of an
    offset, and then nothing is found.  Over the integers both are the same question,
    whether a start and an instruction stand at the same place
    (`verdict_eq_truePositive_iff`, `isFound_iff`).  So the numbers are sizes of sets of
    integers, and the true starts are as many as the instructions not missed.  Lists have no
    part in this: whenever an evaluation gives numbers, they are these (`counting_laws`).
    Starts that stand just where instructions do are all true, and miss none
    (`counts_of_places_eq`). -/

namespace ExecTruth

/-! ## Places -/

/-- The integers that the keys of a map are. -/
def SortedMap.places {ν : Type} (m : SortedMap Int64 ν) : Finset ℤ :=
  (m.keys.map Int64.toInt).toFinset

section Places

variable {ν : Type} {m : SortedMap Int64 ν}

/-- An integer is a place if it is an offset, and that is a key. -/
theorem SortedMap.mem_places_iff {i : ℤ} :
    i ∈ m.places ↔ ∃ o, Word.offsetOfInt? i = some o ∧ m.contains o = true := by
  simp only [places, List.mem_toFinset, List.mem_map, mem_keys_iff, Word.offsetOfInt?_eq_some_iff,
    and_comm]

/-- An offset stands at a place of a map if it is a key. -/
theorem SortedMap.toInt_mem_places_iff {o : Int64} :
    o.toInt ∈ m.places ↔ m.contains o = true := by
  rw [mem_places_iff, Word.offsetOfInt?_eq_some_iff.2 rfl]
  simp

/-- Keys are counted by counting their places. -/
theorem SortedMap.card_filter_places (m : SortedMap Int64 ν) (p : ℤ → Prop) [DecidablePred p] :
    (m.places.filter p).card = m.keys.countP fun o => p o.toInt := by
  have hnodup : (m.keys.map Int64.toInt).Nodup :=
    m.nodup_keys.map fun _ _ h => Int64.toInt_inj.1 h
  rw [places, List.filter_toFinset, List.toFinset_card_of_nodup (hnodup.filter _),
    List.filter_map, List.length_map, List.countP_eq_length_filter]
  rfl

/-- There are as many places as keys, since no two offsets are the same integer. -/
theorem SortedMap.card_places (m : SortedMap Int64 ν) : m.places.card = m.size := by
  rw [← Finset.filter_true m.places, m.card_filter_places fun _ => True]
  simp

end Places

/-- The number of verdicts that were counted. -/
def Counts.verdicts (c : Counts) : Nat := c.truePositive + c.confirmedFalse + c.unknown

/-! ## Both passes over the integers -/

namespace GroundTruth

variable (truth : GroundTruth) (statics : OffsetSet)

/-- The places in memory of the executed instructions. -/
def executed : Finset ℤ := truth.table.places.image (· + truth.base.toInt)

/-- A static start is true if an executed instruction stands at its place. -/
theorem verdict_eq_truePositive_iff {static : Int64} :
    truth.verdict static = .truePositive ↔ static.toInt ∈ truth.executed := by
  have hexecuted : static.toInt ∈ truth.executed
      ↔ ∃ o, Word.checkedSub static truth.base = some o ∧ truth.table.contains o = true := by
    rw [Word.checkedSub, ← SortedMap.mem_places_iff, executed, Finset.mem_image]
    constructor
    · rintro ⟨d, hd, heq⟩
      rwa [← heq, Int.add_sub_cancel]
    · exact fun h => ⟨_, h, Int.sub_add_cancel _ _⟩
  rw [hexecuted, verdict]
  cases Word.checkedSub static truth.base with
  | none =>
      -- the difference is no offset, so no instruction is there
      refine iff_of_false nofun ?_
      rintro ⟨o, ho, -⟩
      exact nomatch ho
  | some o =>
      simp only [Option.some_inj, exists_eq_left']
      by_cases hcontains : truth.table.contains o = true
      · rw [if_pos hcontains]
        exact iff_of_true rfl hcontains
      · rw [if_neg hcontains]
        refine iff_of_false ?_ hcontains
        cases truth.table.below? o with
        | none => exact nofun
        | some e => dsimp only; split <;> exact nofun

/-- An executed instruction is found if a static start stands at its place. -/
theorem isFound_iff {i : Instruction} :
    truth.isFound statics i = true ↔ i.offset.toInt + truth.base.toInt ∈ statics.places := by
  rw [SortedMap.mem_places_iff, isFound, Word.checkedAdd]
  cases Word.offsetOfInt? (i.offset.toInt + truth.base.toInt) with
  | none =>
      -- the sum is no offset, so no static start is there
      refine iff_of_false nofun ?_
      rintro ⟨o, ho, -⟩
      exact nomatch ho
  | some address => simp only [Option.some_inj, exists_eq_left']

/-! ## The numbers -/

/-- The true starts are counted as such. -/
theorem truePositive_foldl (verdicts : List Verdict) (c : Counts) :
    (verdicts.foldl .addVerdict c).truePositive
      = c.truePositive + verdicts.countP (· = .truePositive) := by
  -- the counts so far are general, as each verdict adds to them
  induction verdicts generalizing c with
  | nil => rfl
  | cons v rest ih =>
      rw [List.foldl_cons, ih, List.countP_cons]
      cases v with
      | truePositive =>
          show c.truePositive + 1 + _ = c.truePositive + (_ + 1)
          omega
      | confirmedFalse _ | unknown _ => rfl

/-- Every verdict is counted. -/
theorem verdicts_foldl (verdicts : List Verdict) (c : Counts) :
    (verdicts.foldl .addVerdict c).verdicts = c.verdicts + verdicts.length := by
  induction verdicts generalizing c with
  | nil => rfl
  | cons v rest ih =>
      have hadd : (c.addVerdict v).verdicts = c.verdicts + 1 := by
        cases v <;> simp only [Counts.addVerdict, Counts.verdicts] <;> omega
      rw [List.foldl_cons, ih, hadd, List.length_cons]
      omega

/-- The true starts are those at the places of executed instructions. -/
theorem truePositive_counts :
    (truth.counts statics).truePositive = (statics.places ∩ truth.executed).card := by
  have hcount : (truth.counts statics).truePositive
      = (statics.keys.map truth.verdict).countP (· = .truePositive) := by
    rw [counts, truePositive_foldl]
    exact Nat.zero_add _
  rw [hcount, List.countP_map, ← Finset.filter_mem_eq_inter,
    statics.card_filter_places (· ∈ truth.executed)]
  refine List.countP_congr fun static _ => ?_
  simp [verdict_eq_truePositive_iff]

/-- The instructions that were missed are those at whose places no start is. -/
theorem falseNegative_counts :
    (truth.counts statics).falseNegative
      = (truth.table.places.filter fun d => d + truth.base.toInt ∉ statics.places).card := by
  show (truth.missed statics).length = _
  rw [missed, SortedMap.instructions, List.filter_map, List.length_map,
    truth.table.card_filter_places fun d => d + truth.base.toInt ∉ statics.places,
    SortedMap.keys, List.countP_map, List.countP_eq_length_filter]
  refine congrArg List.length (List.filter_congr fun e _ => ?_)
  simp [← isFound_iff truth statics (i := ⟨e.1, e.2⟩)]

/-- The starts at the places of executed instructions are as many as the instructions
    at whose places a start is. -/
theorem card_inter_executed :
    (statics.places ∩ truth.executed).card
      = (truth.table.places.filter fun d => d + truth.base.toInt ∈ statics.places).card := by
  have himage : statics.places ∩ truth.executed
      = (truth.table.places.filter fun d => d + truth.base.toInt ∈ statics.places).image
          (· + truth.base.toInt) := by
    ext i
    simp only [executed, Finset.mem_inter, Finset.mem_image, Finset.mem_filter]
    constructor
    · rintro ⟨hi, d, hd, rfl⟩
      exact ⟨d, ⟨hd, hi⟩, rfl⟩
    · rintro ⟨d, ⟨hd, hi⟩, rfl⟩
      exact ⟨hi, d, hd, rfl⟩
  rw [himage, Finset.card_image_of_injective _ fun a b => (Int.add_left_inj _).1]

/-- An executed instruction is found if the start at its place is true. -/
theorem isFound_iff_truePositive {i : Instruction} (hi : i ∈ truth.table.instructions) :
    truth.isFound statics i = true
      ↔ ∃ static, statics.contains static = true ∧ truth.verdict static = .truePositive
        ∧ static.toInt = i.offset.toInt + truth.base.toInt := by
  obtain ⟨e, he, rfl⟩ := List.mem_map.1 hi
  have hexecuted : e.1.toInt + truth.base.toInt ∈ truth.executed := by
    refine Finset.mem_image_of_mem _ (SortedMap.toInt_mem_places_iff.2 ?_)
    exact SortedMap.mem_keys_iff.1 (List.mem_map_of_mem he)
  rw [isFound_iff, SortedMap.mem_places_iff]
  refine exists_congr fun static => ?_
  rw [Word.offsetOfInt?_eq_some_iff, verdict_eq_truePositive_iff]
  constructor
  · rintro ⟨heq, hstatic⟩
    exact ⟨hstatic, heq ▸ hexecuted, heq⟩
  · rintro ⟨hstatic, -, heq⟩
    exact ⟨heq, hstatic⟩

/-- Every start is counted with one verdict. -/
theorem verdicts_counts : (truth.counts statics).verdicts = statics.size := by
  have hall := verdicts_foldl (statics.keys.map truth.verdict) .zero
  rw [List.length_map, SortedMap.length_keys] at hall
  exact hall.trans (Nat.zero_add _)

/-- The true starts and the missed instructions are as many as the executed ones. -/
theorem truePositive_add_falseNegative_counts :
    (truth.counts statics).truePositive + (truth.counts statics).falseNegative
      = truth.table.size := by
  rw [truePositive_counts, falseNegative_counts, card_inter_executed,
    Finset.card_filter_add_card_filter_not, SortedMap.card_places]

/-- **COUNTING LAWS**.  An evaluation gives numbers if every list has room for all its lines.
    Whenever it does, they are those of places of the integers: of the static starts where an
    instruction was executed, and of the executed instructions where no static start is.  The
    verdicts are as many as the starts, and the true starts and the missed instructions
    together as many as the executed ones; both passes agree on which instructions are
    found. -/
theorem counting_laws (truth : GroundTruth) (statics : OffsetSet) (rooms : List (Option Nat)) :
    ((∃ c, (truth.evaluate statics rooms).2 = .ok c) ↔ truth.HasRoom statics rooms)
    ∧ (∀ c, (truth.evaluate statics rooms).2 = .ok c →
      c.truePositive = (statics.places ∩ truth.executed).card
      ∧ c.falseNegative
        = (truth.table.places.filter fun d => d + truth.base.toInt ∉ statics.places).card
      ∧ c.truePositive + c.confirmedFalse + c.unknown = statics.size
      ∧ c.truePositive + c.falseNegative = truth.table.size)
    ∧ ∀ i ∈ truth.table.instructions, truth.isFound statics i = true
      ↔ ∃ static, statics.contains static = true ∧ truth.verdict static = .truePositive
        ∧ static.toInt = i.offset.toInt + truth.base.toInt := by
  refine ⟨?_, fun c hc => ?_, fun i hi => truth.isFound_iff_truePositive statics hi⟩
  · simp only [evaluate_eq_ok_iff, exists_and_left, exists_eq, and_true]
  · -- whatever the rooms, a result is that of the verdicts and of the missed instructions
    obtain ⟨-, rfl⟩ := evaluate_eq_ok_iff.1 hc
    exact ⟨truth.truePositive_counts statics, truth.falseNegative_counts statics,
      truth.verdicts_counts statics, truth.truePositive_add_falseNegative_counts statics⟩

/-- Taking the base off the lowest start leaves the range of offsets, and so does adding it to
    the highest instruction.  One start is true, one lies inside an instruction, and the list
    for that has room for its line and no more. -/
theorem counting_laws_beyond_offsets :
    let truth : GroundTruth := ⟨.ofList [(0x10, 2), (Int64.maxValue - 4, 1)], 0x1000⟩
    let statics : OffsetSet := .ofOffsets [Int64.minValue, 0x1010, 0x1011]
    Word.checkedSub Int64.minValue truth.base = none
    ∧ Word.checkedAdd (Int64.maxValue - 4) truth.base = none
    ∧ (truth.evaluate statics [some 23, none]).2 = .ok ⟨1, 1, 1, 1⟩
    ∧ (statics.places ∩ truth.executed).card = 1
    ∧ (truth.table.places.filter fun d => d + truth.base.toInt ∉ statics.places).card = 1
    ∧ statics.size = 3 ∧ truth.table.size = 2 := by
  intro truth statics
  have hevaluate : (truth.evaluate statics [some 23, none]).2 = .ok ⟨1, 1, 1, 1⟩ := by decide
  obtain ⟨-, hlaws, -⟩ := counting_laws truth statics [some 23, none]
  obtain ⟨htrue, hmissed, hall, htable⟩ := hlaws _ hevaluate
  exact ⟨by decide, by decide, hevaluate, htrue.symm, hmissed.symm, hall.symm, htable.symm⟩

/-- The instructions are executed at different places. -/
theorem card_executed : truth.executed.card = truth.table.size := by
  rw [executed, Finset.card_image_of_injective _ fun a b => (Int.add_left_inj _).1,
    SortedMap.card_places]

/-- Static starts that stand where the executed instructions do are all true, and miss
    none. -/
theorem counts_of_places_eq (h : statics.places = truth.executed) :
    truth.counts statics = ⟨truth.table.size, 0, 0, 0⟩ := by
  have htrue : (truth.counts statics).truePositive = truth.table.size := by
    rw [truePositive_counts, h, Finset.inter_self, card_executed]
  have hmissed : (truth.counts statics).falseNegative = 0 := by
    rw [falseNegative_counts, h, Finset.card_eq_zero, Finset.filter_eq_empty_iff]
    intro d hd hnot
    exact hnot (Finset.mem_image_of_mem _ hd)
  have hverdicts : (truth.counts statics).verdicts = truth.table.size := by
    rw [verdicts_counts, ← SortedMap.card_places, h, card_executed]
  -- nothing is left for the other verdicts
  generalize truth.counts statics = c at htrue hmissed hverdicts ⊢
  obtain ⟨t, f, u, n⟩ := c
  simp only [Counts.verdicts] at htrue hmissed hverdicts
  rw [Counts.mk.injEq]
  omega

end GroundTruth

end ExecTruth
