import ExecTruth.Proofs.Scoring.Spans
import Mathlib.Logic.ExistsUnique

/-! # Evidence — what is true of the executed instructions when a verdict is given

    Take the load base off a static start.  Over the integers, where no sum and no distance
    leaves a range, an executed instruction starts at the offset that is left; or one starts
    next below, and reaches past the offset or not; or none starts below.  In each of these
    situations one verdict is borne out and no other (`bearsOut_iff_of_executed`,
    `bearsOut_iff_of_nextBelow`, `bearsOut_iff_of_lowest`), and that is the one that is given
    (`verdict_by_evidence`), at both ends of the range of offsets as well, where the place
    behind an instruction or the distance from its start may be no offset. -/

namespace ExecTruth.GroundTruth

variable {truth : GroundTruth} {i : Instruction} {static o : Int64} {v : Verdict}

/-- What has to be true of an offset for a verdict on it. -/
def BearsOut (truth : GroundTruth) (o : Int64) : Verdict → Prop
  | .truePositive => o ∈ truth.table.keys
  | .confirmedFalse container =>
      o ∉ truth.table.keys ∧ truth.NextBelow o container ∧ o.toInt < container.stop
  | .unknown (some predecessor) =>
      o ∉ truth.table.keys ∧ truth.NextBelow o predecessor ∧ predecessor.stop ≤ o.toInt
  | .unknown none => ∀ k ∈ truth.table.keys, o.toInt < k.toInt

/-- There is only one executed instruction next below. -/
theorem NextBelow.eq {j : Instruction} (hi : truth.NextBelow o i) (hj : truth.NextBelow o j) :
    i = j := by
  have hfound := below?_eq_some_iff_nextBelow.2 hi
  have hfound' := below?_eq_some_iff_nextBelow.2 hj
  obtain ⟨i, l⟩ := i
  cases hfound.symm.trans hfound'
  rfl

/-- With an instruction below the offset, not all start above it. -/
theorem NextBelow.not_lowest (hi : truth.NextBelow o i) :
    ¬ ∀ k ∈ truth.table.keys, o.toInt < k.toInt := by
  intro hlowest
  have hkey : i.offset ∈ truth.table.keys :=
    List.mem_map_of_mem (f := Prod.fst) (mem_instructions_iff.1 hi.executed)
  have habove := hlowest i.offset hkey
  have hbelow := hi.below
  omega

/-! ## One verdict for each situation -/

/-- Where an instruction was executed, the evidence is for a true positive alone. -/
theorem bearsOut_iff_of_executed (h : o ∈ truth.table.keys) :
    truth.BearsOut o v ↔ v = .truePositive := by
  cases v with
  | truePositive => exact iff_of_true h rfl
  | confirmedFalse c => exact iff_of_false (fun hv => hv.1 h) nofun
  | unknown p =>
      refine iff_of_false (fun hv => ?_) nofun
      cases p with
      | none => exact Int.lt_irrefl _ (hv o h)
      | some p => exact hv.1 h

/-- Above an executed instruction, its bytes decide between the two other verdicts. -/
theorem bearsOut_iff_of_nextBelow (hnot : o ∉ truth.table.keys) (hi : truth.NextBelow o i) :
    truth.BearsOut o v
      ↔ v = if i.Spans o then .confirmedFalse i else .unknown (some i) := by
  have hspans : i.Spans o ↔ o.toInt < i.stop := and_iff_right hi.below
  -- one case for each verdict: what it claims against where the offset lies
  cases v with
  | truePositive =>
      refine iff_of_false hnot fun hv => ?_
      split at hv <;> exact nomatch hv
  | confirmedFalse c =>
      constructor
      · rintro ⟨-, hc, hstop⟩
        obtain rfl := hc.eq hi
        rw [if_pos (hspans.2 hstop)]
      · intro hv
        split at hv
        · next hinside =>
            cases hv
            exact ⟨hnot, hi, hspans.1 hinside⟩
        · exact nomatch hv
  | unknown p =>
      cases p with
      | none =>
          refine iff_of_false hi.not_lowest fun hv => ?_
          split at hv <;> exact nomatch hv
      | some p =>
          constructor
          · rintro ⟨-, hp, hstop⟩
            obtain rfl := hp.eq hi
            rw [if_neg fun hinside => Int.not_lt.2 hstop (hspans.1 hinside)]
          · intro hv
            split at hv
            · exact nomatch hv
            · next houtside =>
                cases hv
                exact ⟨hnot, hi, Int.not_lt.1 fun hstop => houtside (hspans.2 hstop)⟩

/-- Below all executed instructions the evidence tells nothing. -/
theorem bearsOut_iff_of_lowest (h : ∀ k ∈ truth.table.keys, o.toInt < k.toInt) :
    truth.BearsOut o v ↔ v = .unknown none := by
  cases v with
  | truePositive => exact iff_of_false (fun hv => Int.lt_irrefl _ (h o hv)) nofun
  | confirmedFalse c => exact iff_of_false (fun hv => hv.2.1.not_lowest h) nofun
  | unknown p =>
      cases p with
      | none => exact iff_of_true h rfl
      | some p => exact iff_of_false (fun hv => hv.2.1.not_lowest h) nofun

/-! ## The verdict that is given -/

/-- Where the difference is an offset, the verdict is the one that the evidence bears out. -/
theorem verdict_eq_iff_bearsOut (ho : o.toInt = static.toInt - truth.base.toInt) :
    truth.verdict static = v ↔ truth.BearsOut o v := by
  rw [eq_comm]
  cases hcontains : truth.table.contains o with
  | true =>
      have hverdict : truth.verdict static = .truePositive := by
        rw [verdict, Word.checkedSub_eq_some_iff.2 ho]
        exact if_pos hcontains
      rw [hverdict, bearsOut_iff_of_executed (SortedMap.mem_keys_iff.2 hcontains)]
  | false =>
      have hnot : o ∉ truth.table.keys := fun hkey =>
        Bool.false_ne_true (hcontains.symm.trans (SortedMap.mem_keys_iff.1 hkey))
      rw [verdict_eq ho hcontains]
      cases hbelow : truth.table.below? o with
      | none =>
          refine (bearsOut_iff_of_lowest fun k hk => ?_).symm
          -- a key that is not below the offset, and is not the offset, is above it
          obtain ⟨e, he, rfl⟩ := List.mem_map.1 hk
          have hge : ¬ e.1.toInt < o.toInt := SortedMap.below?_eq_none_iff.1 hbelow e he
          have hne : e.1.toInt ≠ o.toInt := fun heq => hnot (Int64.toInt_inj.1 heq ▸ hk)
          omega
      | some e =>
          have hnext : truth.NextBelow o ⟨e.1, e.2⟩ := below?_eq_some_iff_nextBelow.1 hbelow
          exact (bearsOut_iff_of_nextBelow hnot hnext).symm

/-- **EVIDENCE**.  Let the load base be taken off a static start within the range of offsets.
    The start is true exactly if an executed instruction starts there.  Otherwise the
    instruction next below is named: as one that the start lies inside of exactly if the
    start is in front of the place behind it, and as the one that the start lies behind
    exactly if not.  None is named exactly if all start above.  Of all verdicts one is borne
    out. -/
theorem verdict_by_evidence (truth : GroundTruth) (static o : Int64)
    (ho : o.toInt = static.toInt - truth.base.toInt) :
    (truth.verdict static = .truePositive ↔ o ∈ truth.table.keys)
    ∧ (∀ c, truth.verdict static = .confirmedFalse c
      ↔ o ∉ truth.table.keys ∧ truth.NextBelow o c
        ∧ o.toInt < c.offset.toInt + c.length.toNat)
    ∧ (∀ p, truth.verdict static = .unknown (some p)
      ↔ o ∉ truth.table.keys ∧ truth.NextBelow o p
        ∧ p.offset.toInt + p.length.toNat ≤ o.toInt)
    ∧ (truth.verdict static = .unknown none ↔ ∀ k ∈ truth.table.keys, o.toInt < k.toInt)
    ∧ ∃! v, truth.BearsOut o v := by
  refine ⟨verdict_eq_iff_bearsOut ho, fun c => verdict_eq_iff_bearsOut ho,
    fun p => verdict_eq_iff_bearsOut ho, verdict_eq_iff_bearsOut ho, truth.verdict static, ?_, ?_⟩
  · exact (verdict_eq_iff_bearsOut ho).1 rfl
  · intro v hv
    exact ((verdict_eq_iff_bearsOut ho).2 hv).symm

/-- At both ends of the range: the place behind the last instruction is no offset, and neither
    is the distance of a start at that end from the first instruction. -/
theorem verdict_by_evidence_extremes :
    let ends : GroundTruth := ⟨.ofList [(Int64.maxValue - 1, 4)], 0⟩
    let far : GroundTruth := ⟨.ofList [(Int64.minValue, 15)], -1⟩
    Int64.maxValue.toInt = Int64.maxValue.toInt - ends.base.toInt
    ∧ ends.verdict Int64.maxValue = .confirmedFalse ⟨Int64.maxValue - 1, 4⟩
    ∧ Int64.maxValue.toInt = (Int64.maxValue - 1).toInt - far.base.toInt
    ∧ far.verdict (Int64.maxValue - 1) = .unknown (some ⟨Int64.minValue, 15⟩) := by
  intro ends far
  have hends : Int64.maxValue.toInt = Int64.maxValue.toInt - ends.base.toInt := by decide
  have hfar : Int64.maxValue.toInt = (Int64.maxValue - 1).toInt - far.base.toInt := by decide
  obtain ⟨-, hconfirmed, -⟩ := verdict_by_evidence ends Int64.maxValue Int64.maxValue hends
  obtain ⟨-, -, hunknown, -⟩ :=
    verdict_by_evidence far (Int64.maxValue - 1) Int64.maxValue hfar
  refine ⟨hends, (hconfirmed _).2 ⟨by decide, ⟨by decide, by decide, by decide⟩, by decide⟩,
    hfar, (hunknown _).2 ⟨by decide, ⟨by decide, by decide, by decide⟩, by decide⟩⟩

end ExecTruth.GroundTruth
