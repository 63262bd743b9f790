import ExecTruth.Proofs.Capture.LegacyRoundTrip
import ExecTruth.Proofs.Recording.WholeRun
import ExecTruth.Proofs.Scoring.CountingLaws
import ExecTruth.Scoring.Comparison

/-! # Self evaluation — a run scored against itself

    A session may write a legacy capture besides the rich one.  If it finishes without a
    fault, every offset of the capture has an address at the load base, or else the legacy
    capture could not have been written to its end; and these addresses are what is read
    of it (`legacy_of_store`).  The evaluator takes the load base off again, so its static
    starts stand exactly where the executed instructions do (`places_of_rebased`).  All of
    them are true, and no instruction is missed (`counts_of_finish`). -/

namespace ExecTruth

open Job

/-! ## Where addresses stand -/

/-- The set of the addresses of a table's offsets stands where its instructions are
    executed. -/
theorem places_of_rebased {table : InstructionTable} {base : Int64} {sums : List Int64}
    (h : Legacy.Rebased base table.keys sums) :
    (OffsetSet.ofOffsets sums).places = (⟨table, base⟩ : GroundTruth).executed := by
  ext i
  have hplaces : i ∈ (OffsetSet.ofOffsets sums).places ↔ i ∈ sums.map Int64.toInt := by
    rw [SortedMap.mem_places_iff, List.mem_map]
    refine exists_congr fun o => ?_
    rw [OffsetSet.contains_ofOffsets_iff, Word.offsetOfInt?_eq_some_iff, and_comm]
  have hexecuted : i ∈ (⟨table, base⟩ : GroundTruth).executed
      ↔ i ∈ table.keys.map fun o => o.toInt + base.toInt := by
    rw [GroundTruth.executed, SortedMap.places, Finset.mem_image, List.mem_map]
    simp
  rw [hplaces, hexecuted, h]

/-! ## Comparing without lists -/

namespace Comparison

/-- No list asks for nothing to be written. -/
theorem write_nil (details : List Detail) : DetailList.write [] details = ([], []) := by
  induction details with
  | nil => rfl
  | cons d rest ih => exact ih

/-- No block is written to no file, and the host stays. -/
theorem writeBlocks_nil (blocks : List Block) (h : Host) : writeBlocks [] blocks h = .ok () h := by
  induction blocks with
  | nil => rfl
  | cons b rest ih => exact ih

/-- Scoring without lists gives the numbers, and changes nothing but the reports. -/
theorem evaluateOn_nil (truth : GroundTruth) (statics : OffsetSet) (h : Host) :
    ∃ events, evaluateOn [] truth statics h = .ok (truth.counts statics) { h with events } := by
  have hevaluate : truth.evaluate statics [] = ([], .ok (truth.counts statics)) := by
    have hwritten : truth.written statics [] = ([], []) := write_nil (truth.details statics)
    rw [GroundTruth.evaluate, hwritten]
    rfl
  rw [evaluateOn, List.map_nil, hevaluate]
  exact ⟨_, (bind_of_ok (writeBlocks_nil _ h)).trans rfl⟩

/-- Without lists, two captures that are read give their numbers. -/
theorem run_of_loads {dynamicPath staticPath : Path} {h : Host} {capture : RichCapture}
    {statics : OffsetSet} (hdynamic : RichCapture.load dynamicPath h = .ok capture h)
    (hstatic : Legacy.load staticPath h = .ok statics h) :
    ∃ events, run dynamicPath staticPath [] h
      = .ok ⟨capture.digest, capture.base, capture.table.size, statics.size,
          (⟨capture.table, capture.base⟩ : GroundTruth).counts statics⟩ { h with events } := by
  obtain ⟨events, hevaluate⟩ := evaluateOn_nil ⟨capture.table, capture.base⟩ statics h
  rw [run, bind_of_ok (wrap_eq_ok_iff.2 hdynamic), bind_of_ok (wrap_eq_ok_iff.2 hstatic)]
  exact ⟨events, (bind_of_ok rfl).trans (bind_of_ok hevaluate)⟩

end Comparison

namespace Session

/-! ## What a run leaves -/

/-- Storing with a legacy capture leaves the addresses of the capture in its file. -/
theorem legacy_of_store {config : SessionConfig} {table : InstructionTable} {h h' : Host}
    {capture : RichCapture} {legacy : Path} {loc : Location}
    (hstore : store config table h = .ok capture h') (hlegacy : config.legacy = some legacy)
    (hloc : h.files.fileAt? legacy = some loc)
    (hdevice : h.files.nodeAt? config.output ≠ some .nullDevice) :
    ∃ sums, Legacy.Rebased capture.base capture.table.keys sums
      ∧ h'.files.fileAt? legacy = some loc
      ∧ h'.files.find? loc = some (.file (sums.flatMap Word.encodeOffset)) := by
  obtain ⟨h₁, h₂, hmerge, hsend, hfiles⟩ := sendTo_of_store hstore hlegacy
  obtain ⟨digest, -, hbuild⟩ := mergeRun_eq_ok_iff.1 hmerge
  obtain ⟨-, hsaved⟩ := mergeBuild_ok hbuild
  obtain ⟨hsame, -⟩ := hsaved.fileAt?_eq hdevice
  have hloc₁ : h₁.files.fileAt? legacy = some loc := (hsame legacy).trans hloc
  -- it was written to the end, so all addresses fit
  have hout := outcome_of_sendTo_ok hsend
  obtain ⟨sums, hsums⟩ := Legacy.outcome_emit_eq_ok_iff.1 hout
  rw [sendTo_of_fileAt? hloc₁, hout, Legacy.emit_of_rebased hsums] at hsend
  cases hsend
  have hroom := FileTree.hasRoom_of_fileAt? hloc₁
  rw [hfiles]
  refine ⟨sums, hsums, ((hroom.agreeBut_put _).fileAt?_eq legacy).trans hloc₁, ?_⟩
  exact (FileTree.find?_put hroom.ne_root _ loc).trans (if_pos rfl)

/-- **SELF EVALUATION**.  When a run ends without a fault whose legacy capture goes to a
    file of its own, both captures are read back, and scoring the legacy one against the
    rich one finds all instructions and nothing else.  The legacy file has eight bytes for
    each instruction, and its addresses ascend.  The rich capture must not go to the null
    device, where nothing is read back, and its number of instructions must have room in
    eight bytes. -/
theorem counts_of_finish {ε : Type} {s s' : Session} {h h' : Host} {capture : RichCapture}
    {legacy : Path} {loc : Location}
    (hfinish : (s.finish : Job ε _) h = .ok (.ok capture, s') h')
    (hlegacy : s.config.legacy = some legacy) (hloc : h.files.fileAt? legacy = some loc)
    (hother : h.files.fileAt? s.config.output ≠ some loc)
    (hdevice : h.files.nodeAt? s.config.output ≠ some .nullDevice)
    (hcount : capture.Countable) :
    let n := capture.table.size
    ∃ statics bytes,
      RichCapture.load s.config.output h' = .ok capture h'
      ∧ Legacy.load legacy h' = .ok statics h'
      ∧ (⟨capture.table, capture.base⟩ : GroundTruth).counts statics = ⟨n, 0, 0, 0⟩
      ∧ (∃ events, Comparison.run s.config.output legacy [] h'
          = .ok ⟨capture.digest, capture.base, n, n, ⟨n, 0, 0, 0⟩⟩ { h' with events })
      ∧ h'.files.nodeAt? legacy = some (.file bytes) ∧ bytes.length = 8 * n
      ∧ (Legacy.addresses n bytes).Pairwise fun a a' => a.toInt < a'.toInt := by
  intro n
  obtain ⟨⟨_, hstore⟩, -⟩ := store_of_finish hfinish
  have hapart : ∀ legacy' ∈ s.config.legacy,
      h.files.fileAt? legacy' ≠ h.files.fileAt? s.config.output := by
    intro legacy' hmem heq
    obtain rfl := Option.some.inj (hlegacy.symm.trans hmem)
    exact hother (heq.symm.trans hloc)
  obtain ⟨-, hstored⟩ := merged_of_store hstore hdevice hapart hcount
  -- both files as they are read back
  obtain ⟨sums, hsums, hloc', hfile⟩ := legacy_of_store hstore hlegacy hloc hdevice
  have hload : RichCapture.load s.config.output h' = .ok capture h' :=
    (RichCapture.answers_load _).eq_ok_iff.2 ⟨hstored, rfl⟩
  have hloadLegacy : Legacy.load legacy h' = .ok (.ofOffsets sums) h' :=
    (Legacy.answers_load _).eq_ok_iff.2 ⟨Legacy.stored_of_fileAt? hloc' hfile, rfl⟩
  have hplaces := places_of_rebased hsums
  have hcounts := GroundTruth.counts_of_places_eq ⟨capture.table, capture.base⟩ _ hplaces
  have hlength : sums.length = n := hsums.length_eq.trans (SortedMap.length_keys _)
  have hsize : (OffsetSet.ofOffsets sums).size = n := by
    rw [← SortedMap.card_places, hplaces, GroundTruth.card_executed]
  obtain ⟨events, hrun⟩ := Comparison.run_of_loads hload hloadLegacy
  rw [hcounts, hsize] at hrun
  refine ⟨_, _, hload, hloadLegacy, hcounts, ⟨events, hrun⟩,
    FileTree.nodeAt?_of_fileAt? hloc' hfile, ?_, ?_⟩
  · rw [Legacy.length_flatMap_encodeOffset, hlength]
  · rw [← hlength, Legacy.addresses_flatMap]
    exact hsums.ascending (List.pairwise_map.2 capture.table.ascending)

/-! ## Two workers at a base below zero -/

private def selfConfig : SessionConfig := ⟨⟨[112]⟩, ⟨[99]⟩, some ⟨[108]⟩⟩

private def selfCapture : RichCapture := ⟨Digest.ofBytes [1], -0x1000, .ofListFirst [(0, 2)]⟩

/-- Two workers record at two offsets, at one of them with two lengths.  With the offset that the
    capture had before there are three, and all are true positives. -/
theorem counts_of_finish_two_workers :
    let steps : List Step := [.record 3 ⟨4, 9⟩, .record 1 ⟨4, 4⟩, .record 3 ⟨8, 6⟩]
    ∃ capture s' h' statics,
      ((Ongoing.start selfConfig).run steps []).1.session.finish ⟨filesWithCapture selfCapture, []⟩
        = (.ok (.ok capture, s') h' : EStateM.Result Empty _ _)
      ∧ capture.table = .ofListFirst [(0, 2), (4, 4), (8, 6)]
      ∧ Legacy.load ⟨[108]⟩ h' = .ok statics h'
      ∧ (⟨capture.table, capture.base⟩ : GroundTruth).counts statics = ⟨3, 0, 0, 0⟩ := by
  intro steps
  have houtput := fileAt?_filesWithCapture selfCapture
  have hlegacy : (filesWithCapture selfCapture).fileAt? ⟨[108]⟩ = some [[108]] :=
    FileTree.fileAt?_name rfl rfl rfl (by decide) (Or.inl rfl)
  obtain ⟨owners, follows⟩ := Ongoing.follows_run selfConfig steps []
  have hunion : ((Ongoing.start selfConfig).run steps []).1.session.workers.union
      = .ofListFirst [(4, 4), (8, 6)] := by decide
  obtain ⟨h', hfinish⟩ := finish_of_filesWithCapture (ε := Empty) (c := selfCapture)
    follows.config rfl (by decide) (fun legacy hmem => by
      obtain rfl := Option.some.inj hmem
      exact ⟨⟨_, hlegacy⟩, by rw [hunion]; decide⟩) []
  rw [hunion] at hfinish
  have hdevice : (filesWithCapture selfCapture).nodeAt? ⟨[99]⟩ ≠ some .nullDevice := by
    rw [FileTree.nodeAt?_of_fileAt? houtput rfl]
    exact nofun
  have hother : (filesWithCapture selfCapture).fileAt? ⟨[99]⟩ ≠ some [[108]] := by
    rw [houtput]
    decide
  obtain ⟨statics, bytes, -, hload, hcounts, -⟩ := counts_of_finish hfinish
    (congrArg SessionConfig.legacy follows.config) hlegacy
    (by rw [follows.config]; exact hother) (by rw [follows.config]; exact hdevice) (by decide)
  exact ⟨_, _, h', statics, hfinish, by decide, hload, hcounts⟩

end Session

end ExecTruth
