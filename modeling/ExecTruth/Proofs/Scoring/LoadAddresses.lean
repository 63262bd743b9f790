import ExecTruth.Proofs.Scoring.CountingLaws

/-! # Load addresses — the same binary loaded elsewhere

    Let the load base and every static start be MOVED by the same distance, none of them out
    of the range of offsets.  Taking the base off a start gives the same difference as before,
    or none in both cases, so the verdicts are the same (`verdict_movedBy`).  Adding the base
    to an executed instruction may leave the range at one load base and not at the other;
    but no static start is there in either case, so the same instructions are found
    (`isFound_movedBy`).  The numbers follow (`counts_of_movedBy`). -/

namespace ExecTruth

/-! ## Offsets that are moved -/

namespace Word

variable {k : Int} {a b o : Int64}

/-- The offset at the distance `k`. -/
def movedBy (k : Int) (o : Int64) : Int64 := .ofInt (o.toInt + k)

/-- At the distance `k` there is an offset. -/
def Movable (k : Int) (o : Int64) : Prop :=
  Int64.minValue.toInt ≤ o.toInt + k ∧ o.toInt + k ≤ Int64.maxValue.toInt

instance (k : Int) (o : Int64) : Decidable (Movable k o) := inferInstanceAs (Decidable (_ ∧ _))

theorem toInt_movedBy (h : Movable k o) : (movedBy k o).toInt = o.toInt + k :=
  Int64.toInt_ofInt_of_le h.1 (Int.lt_of_le_of_lt h.2 (by decide))

/-- The difference of two offsets stays. -/
theorem checkedSub_movedBy (ha : Movable k a) (hb : Movable k b) :
    checkedSub (movedBy k a) (movedBy k b) = checkedSub a b := by
  rw [checkedSub, checkedSub, toInt_movedBy ha, toInt_movedBy hb]
  congr 1
  omega

end Word

namespace OffsetSet

variable {statics : OffsetSet} {k : Int}

/-- The offsets at the distance `k` from those of a set. -/
def movedBy (k : Int) (statics : OffsetSet) : OffsetSet :=
  ofOffsets (statics.keys.map (Word.movedBy k))

/-- The starts of a moved set are the moved starts, in the same order. -/
theorem keys_movedBy (h : ∀ s ∈ statics.keys, Word.Movable k s) :
    (statics.movedBy k).keys = statics.keys.map (Word.movedBy k) := by
  refine keys_ofOffsets_eq_iff.2 (List.pairwise_map.2 ?_)
  have hascending : statics.keys.Pairwise fun a b => a.toInt < b.toInt :=
    List.pairwise_map.2 statics.ascending
  refine hascending.imp_of_mem ?_
  intro a b ha hb hlt
  rw [Word.toInt_movedBy (h a ha), Word.toInt_movedBy (h b hb)]
  omega

/-- A set stands at the places of the other, moved. -/
theorem places_movedBy (h : ∀ s ∈ statics.keys, Word.Movable k s) :
    (statics.movedBy k).places = statics.places.image (· + k) := by
  ext i
  simp only [SortedMap.places, keys_movedBy h, List.mem_toFinset, Finset.mem_image, List.mem_map,
    exists_exists_and_eq_and]
  refine exists_congr fun s => and_congr_right fun hs => ?_
  rw [Word.toInt_movedBy (h s hs)]

end OffsetSet

/-! ## Both passes at another load base -/

namespace GroundTruth

variable {truth : GroundTruth} {statics : OffsetSet} {k : Int}

/-- The executed instructions of the binary, loaded at the distance `k`. -/
def movedBy (k : Int) (truth : GroundTruth) : GroundTruth :=
  ⟨truth.table, Word.movedBy k truth.base⟩

/-- A verdict depends on the load base by the difference of the start from it only. -/
theorem verdict_congr {truth' : GroundTruth} {static static' : Int64}
    (htable : truth'.table = truth.table)
    (hsub : Word.checkedSub static' truth'.base = Word.checkedSub static truth.base) :
    truth'.verdict static' = truth.verdict static := by
  unfold verdict
  rw [htable, hsub]

/-- A start and a base that are moved together have the same difference, and so the same
    verdict. -/
theorem verdict_movedBy {static : Int64} (hbase : Word.Movable k truth.base)
    (hstatic : Word.Movable k static) :
    (truth.movedBy k).verdict (Word.movedBy k static) = truth.verdict static :=
  verdict_congr rfl (Word.checkedSub_movedBy hstatic hbase)

/-- Whether an instruction is found is asked over the integers, where it is moved along. -/
theorem isFound_movedBy {i : Instruction} (hbase : Word.Movable k truth.base)
    (hstatics : ∀ s ∈ statics.keys, Word.Movable k s) :
    (truth.movedBy k).isFound (statics.movedBy k) i = truth.isFound statics i := by
  refine Bool.eq_iff_iff.2 ?_
  rw [isFound_iff, isFound_iff, OffsetSet.places_movedBy hstatics, Finset.mem_image]
  have hplace : i.offset.toInt + (truth.movedBy k).base.toInt
      = i.offset.toInt + truth.base.toInt + k := by
    show i.offset.toInt + (Word.movedBy k truth.base).toInt = _
    rw [Word.toInt_movedBy hbase]
    omega
  -- the instruction and the starts are moved by the same distance
  rw [hplace]
  constructor
  · rintro ⟨p, hp, heq⟩
    rwa [← (Int.add_left_inj k).1 heq]
  · intro hp
    exact ⟨_, hp, rfl⟩

/-- No instruction is missed in one place that is not missed in the other. -/
theorem missed_movedBy (hbase : Word.Movable k truth.base)
    (hstatics : ∀ s ∈ statics.keys, Word.Movable k s) :
    (truth.movedBy k).missed (statics.movedBy k) = truth.missed statics := by
  refine List.filter_congr ?_
  intro i _
  rw [isFound_movedBy hbase hstatics]

/-- The numbers are those of the same verdicts and the same missed instructions. -/
theorem counts_movedBy (hbase : Word.Movable k truth.base)
    (hstatics : ∀ s ∈ statics.keys, Word.Movable k s) :
    (truth.movedBy k).counts (statics.movedBy k) = truth.counts statics := by
  have hverdicts : (statics.movedBy k).keys.map (truth.movedBy k).verdict
      = statics.keys.map truth.verdict := by
    rw [OffsetSet.keys_movedBy hstatics, List.map_map]
    refine List.map_congr_left fun s hs => ?_
    exact verdict_movedBy hbase (hstatics s hs)
  rw [counts, counts, hverdicts, missed_movedBy hbase hstatics]

/-- **LOAD ADDRESS.** Moving the load base and all static starts by one distance changes
    nothing: without lists, both evaluations give the same numbers, and with any lists they
    give none but these; the verdict on each start is the same, with the instruction that it
    names, and the same instructions are missed. -/
theorem counts_of_movedBy (truth : GroundTruth) (statics : OffsetSet) (k : Int)
    (hbase : Word.Movable k truth.base) (hstatics : ∀ s ∈ statics.keys, Word.Movable k s) :
    (truth.evaluate statics []).2 = .ok (truth.counts statics)
    ∧ ((truth.movedBy k).evaluate (statics.movedBy k) []).2 = .ok (truth.counts statics)
    ∧ (∀ rooms rooms' c c', (truth.evaluate statics rooms).2 = .ok c →
      ((truth.movedBy k).evaluate (statics.movedBy k) rooms').2 = .ok c' → c' = c)
    ∧ (∀ s ∈ statics.keys,
      (truth.movedBy k).verdict (Word.movedBy k s) = truth.verdict s)
    ∧ (truth.movedBy k).missed (statics.movedBy k) = truth.missed statics := by
  have hcounts := counts_movedBy hbase hstatics
  refine ⟨evaluate_eq_ok_iff.2 ⟨hasRoom_nil, rfl⟩,
    evaluate_eq_ok_iff.2 ⟨hasRoom_nil, hcounts.symm⟩, fun rooms rooms' c c' hc hc' => ?_,
    fun s hs => verdict_movedBy hbase (hstatics s hs), missed_movedBy hbase hstatics⟩
  obtain ⟨-, rfl⟩ := evaluate_eq_ok_iff.1 hc
  obtain ⟨-, rfl⟩ := evaluate_eq_ok_iff.1 hc'
  exact hcounts

/-- An executed instruction that has no address at the one load base, and has one at the
    other: it is missed at both.  One start is true, one lies inside an instruction, which is
    the same at both, and one behind it. -/
theorem counts_of_movedBy_beyond_addresses :
    let truth : GroundTruth := ⟨.ofList [(0x10, 3), (Int64.maxValue - 4, 1)], 0x1000⟩
    let statics : OffsetSet := .ofOffsets [0x1010, 0x1011, 0x1014]
    Word.Movable (-0x1000) truth.base ∧ (∀ s ∈ statics.keys, Word.Movable (-0x1000) s)
    ∧ Word.checkedAdd (Int64.maxValue - 4) truth.base = none
    ∧ Word.checkedAdd (Int64.maxValue - 4) (truth.movedBy (-0x1000)).base ≠ none
    ∧ ((truth.movedBy (-0x1000)).evaluate (statics.movedBy (-0x1000)) []).2 = .ok ⟨1, 1, 1, 1⟩
    ∧ (truth.movedBy (-0x1000)).verdict 0x11 = .confirmedFalse ⟨0x10, 3⟩
    ∧ (truth.movedBy (-0x1000)).verdict 0x14 = .unknown (some ⟨0x10, 3⟩)
    ∧ (truth.movedBy (-0x1000)).missed (statics.movedBy (-0x1000))
      = [⟨Int64.maxValue - 4, 1⟩] := by
  intro truth statics
  have hbase : Word.Movable (-0x1000) truth.base := by decide
  have hkeys : statics.keys = [0x1010, 0x1011, 0x1014] := by decide
  have hstatics : ∀ s ∈ statics.keys, Word.Movable (-0x1000) s := by
    rw [hkeys]
    exact List.forall_mem_cons.2 ⟨by decide,
      List.forall_mem_cons.2 ⟨by decide, List.forall_mem_singleton.2 (by decide)⟩⟩
  obtain ⟨-, hevaluate, -, hverdict, hmissed⟩ :=
    counts_of_movedBy truth statics (-0x1000) hbase hstatics
  refine ⟨hbase, hstatics, by decide, by decide, ?_, ?_, ?_, ?_⟩
  · rw [hevaluate]
    decide
  · have hinside := hverdict 0x1011 (by rw [hkeys]; decide)
    exact hinside.trans (by decide)
  · have hbehind := hverdict 0x1014 (by rw [hkeys]; decide)
    exact hbehind.trans (by decide)
  · rw [hmissed]
    decide

end GroundTruth

end ExecTruth
