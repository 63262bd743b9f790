import ExecTruth.Proofs.Recording.SelfEvaluation

/-! # Comparisons — what comes of the captures before anything is listed

    The captures are read in their order, and if one cannot be read, that is all that is done
    (`run_of_no_capture`, `run_of_no_statics`).  Without lists nothing else is done with the
    files at all: what comes of a comparison is told by the tree (`outcome`), which stays as
    it is (`run_nil`). -/

namespace ExecTruth

open Job FileTree

namespace Comparison

variable {dynamicPath staticPath : Path} {h : Host} {capture : RichCapture} {statics : OffsetSet}
  {fault : CaptureFault}

/-! ## Both captures are read first -/

/-- Without a capture there is nothing to compare, and the host stays. -/
theorem run_of_no_capture (hdynamic : RichCapture.stored dynamicPath h.files = .error fault)
    (staticPath : Path) (paths : List Path) :
    run dynamicPath staticPath paths h = .error (.capture dynamicPath fault) h := by
  have hload := (RichCapture.answers_load dynamicPath).eq_error hdynamic
  exact bind_of_error (wrap_eq_error_iff.2 ⟨fault, hload, rfl⟩)

/-- Nor is there without the static starts. -/
theorem run_of_no_statics (hdynamic : RichCapture.stored dynamicPath h.files = .ok capture)
    (hstatic : Legacy.stored staticPath h.files = .error fault) (paths : List Path) :
    run dynamicPath staticPath paths h = .error (.capture staticPath fault) h := by
  have hcapture := (RichCapture.answers_load dynamicPath).eq_ok_iff.2 ⟨hdynamic, rfl⟩
  have hload := (Legacy.answers_load staticPath).eq_error hstatic
  rw [run, bind_of_ok (wrap_eq_ok_iff.2 hcapture)]
  exact bind_of_error (wrap_eq_error_iff.2 ⟨fault, hload, rfl⟩)

/-- Both captures are read before anything else is done. -/
theorem run_of_stored (hdynamic : RichCapture.stored dynamicPath h.files = .ok capture)
    (hstatic : Legacy.stored staticPath h.files = .ok statics) (paths : List Path) :
    run dynamicPath staticPath paths h = (createLists (paths.take maxDetailLists) >>=
      fun targets => evaluateOn targets ⟨capture.table, capture.base⟩ statics >>=
        fun counts => pure ⟨capture.digest, capture.base, capture.table.size, statics.size,
          counts⟩) h := by
  have hcapture : RichCapture.load dynamicPath h = .ok capture h :=
    (RichCapture.answers_load _).eq_ok_iff.2 ⟨hdynamic, rfl⟩
  have hstatics : Legacy.load staticPath h = .ok statics h :=
    (Legacy.answers_load _).eq_ok_iff.2 ⟨hstatic, rfl⟩
  rw [run, bind_of_ok (wrap_eq_ok_iff.2 hcapture), bind_of_ok (wrap_eq_ok_iff.2 hstatics)]

/-! ## Comparing without lists -/

/-- What comparing two captures gives when nothing is listed. -/
def outcome (dynamicPath staticPath : Path) (t : FileTree) : Except BatchFault Evaluation :=
  (RichCapture.stored dynamicPath t).mapError (.capture dynamicPath) >>= fun capture =>
    (Legacy.stored staticPath t).mapError (.capture staticPath) >>= fun statics =>
      .ok ⟨capture.digest, capture.base, capture.table.size, statics.size,
        (⟨capture.table, capture.base⟩ : GroundTruth).counts statics⟩

/-- Without lists, two captures that are stored are compared, and nothing is written. -/
theorem run_nil_of_stored (hdynamic : RichCapture.stored dynamicPath h.files = .ok capture)
    (hstatic : Legacy.stored staticPath h.files = .ok statics) :
    ∃ events, run dynamicPath staticPath [] h
      = .ok ⟨capture.digest, capture.base, capture.table.size, statics.size,
        (⟨capture.table, capture.base⟩ : GroundTruth).counts statics⟩ { h with events } :=
  run_of_loads ((RichCapture.answers_load dynamicPath).eq_ok_iff.2 ⟨hdynamic, rfl⟩)
    ((Legacy.answers_load staticPath).eq_ok_iff.2 ⟨hstatic, rfl⟩)

/-- Comparing without lists leaves the files as they are, and looks at nothing else. -/
theorem run_nil (dynamicPath staticPath : Path) (h : Host) : ∃ events,
    run dynamicPath staticPath [] h
      = ofExcept (outcome dynamicPath staticPath h.files) { h with events } := by
  rw [outcome]
  cases hdynamic : RichCapture.stored dynamicPath h.files with
  | error fault => exact ⟨h.events, run_of_no_capture hdynamic staticPath []⟩
  | ok capture =>
      cases hstatic : Legacy.stored staticPath h.files with
      | error fault => exact ⟨h.events, run_of_no_statics hdynamic hstatic []⟩
      | ok statics => exact run_nil_of_stored hdynamic hstatic

/-- Whether the comparison succeeds, and what it gives, is told by the two files. -/
theorem run_nil_eq_ok_iff {dynamicPath staticPath : Path} {h : Host} {evaluation : Evaluation} :
    (∃ h', run dynamicPath staticPath [] h = .ok evaluation h')
      ↔ outcome dynamicPath staticPath h.files = .ok evaluation := by
  obtain ⟨events, hrun⟩ := run_nil dynamicPath staticPath h
  rw [hrun]
  cases outcome dynamicPath staticPath h.files <;> simp

/-- A fault of the comparison is one of these files. -/
theorem outcome_of_run_error {dynamicPath staticPath : Path} {h h' : Host} {fault : BatchFault}
    (hfail : run dynamicPath staticPath [] h = .error fault h') :
    outcome dynamicPath staticPath h.files = .error fault := by
  obtain ⟨events, hrun⟩ := run_nil dynamicPath staticPath h
  rw [hrun] at hfail
  cases hout : outcome dynamicPath staticPath h.files with
  | ok evaluation =>
      rw [hout] at hfail
      exact nomatch hfail
  | error fault' =>
      rw [hout] at hfail
      cases hfail
      rfl

/-! ## Two starts inside one instruction -/

/-- A capture of one instruction of five bytes. -/
def oneInstruction : RichCapture := ⟨"d", 0, .ofListFirst [(0x10, 5)]⟩

/-- A rich capture at `c`, and a legacy one at `s` with two starts inside the instruction. -/
def bothCaptures : FileTree :=
  ⟨[([[99]], .file oneInstruction.encode),
    ([[115]], .file ([0x11, 0x12].flatMap Word.encodeOffset))], []⟩

/-- Both files are captures, the one of executions and the other of static starts. -/
theorem stored_bothCaptures :
    RichCapture.stored ⟨[99]⟩ bothCaptures = .ok oneInstruction
    ∧ Legacy.stored ⟨[115]⟩ bothCaptures = .ok (.ofOffsets [0x11, 0x12]) := by
  have hrich : bothCaptures.fileAt? ⟨[99]⟩ = some [[99]] :=
    fileAt?_name rfl rfl rfl (by decide) (Or.inr ⟨_, rfl⟩)
  have hlegacy : bothCaptures.fileAt? ⟨[115]⟩ = some [[115]] :=
    fileAt?_name rfl rfl rfl (by decide) (Or.inr ⟨_, rfl⟩)
  exact ⟨RichCapture.stored_of_fileAt? hrich rfl (by decide) (by decide),
    Legacy.stored_of_fileAt? hlegacy rfl⟩

end Comparison

end ExecTruth
