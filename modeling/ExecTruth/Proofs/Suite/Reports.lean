import ExecTruth.Proofs.Capture.RoundTrip
import ExecTruth.Proofs.Scoring.Comparisons
import ExecTruth.Proofs.Suite.Records
import ExecTruth.Suite.Report

/-! # Reports — what a report of samples reads as, up to the first that cannot be compared

    What comes of a sample is told by the files alone, and no sample changes them.  So the
    samples of a report are compared as if each were the only one (`compared`), and the rows
    that are written are those in front of the first that cannot be compared (`rows_eq`).

    The header is written together with the first row (`bytesOf_concat`).  The bytes are the
    records as text, and these are read as they were, with any characters in the names
    (`decode_bytesOf`). -/

namespace ExecTruth

open Job

namespace Report

/-! ## The bytes of a report -/

variable {h : Host} {t : FileTree} {samples : List Sample} {evaluations : List Evaluation}

/-- The records of a report; there are none without rows. -/
def table : List (String × Counts) → List (List String)
  | [] => []
  | rows => header :: rows.map fun x => row x.1 x.2

/-- The bytes of records. -/
def bytesOf (rows : List (String × Counts)) : List UInt8 := (table rows).flatMap Csv.recordBytes

/-- With the first row, the header is written. -/
theorem table_of_ne_nil {rows : List (String × Counts)} (h : rows ≠ []) :
    table rows = header :: rows.map fun x => row x.1 x.2 := by
  cases rows with
  | nil => exact absurd rfl h
  | cons x rest => rfl

theorem bytesOf_ne_nil {rows : List (String × Counts)} (h : rows ≠ []) : bytesOf rows ≠ [] := by
  have hheader : Csv.recordBytes header ≠ [] := by decide
  rw [bytesOf, table_of_ne_nil h, List.flatMap_cons]
  exact List.append_ne_nil_of_left_ne_nil hheader _

/-- One more row is written behind the others. -/
theorem bytesOf_concat (rows : List (String × Counts)) (name : String) (c : Counts) :
    bytesOf rows ++ rowBytes (bytesOf rows) name c = bytesOf (rows ++ [(name, c)]) := by
  have hwhole : bytesOf (rows ++ [(name, c)]) = Csv.recordBytes header
      ++ ((rows.map fun x => row x.1 x.2).flatMap Csv.recordBytes
        ++ Csv.recordBytes (row name c)) := by
    rw [bytesOf, table_of_ne_nil (by simp), List.flatMap_cons, List.map_append,
      List.flatMap_append]
    simp
  rw [hwhole, rowBytes]
  by_cases hrows : rows = []
  · rw [hrows]
    rfl
  · have hwritten : ¬ (bytesOf rows).isEmpty := by simpa using bytesOf_ne_nil hrows
    rw [if_neg hwritten, List.nil_append, bytesOf, table_of_ne_nil hrows, List.flatMap_cons,
      List.append_assoc]

/-- The bytes of a report are its records as text. -/
theorem decode_bytesOf (rows : List (String × Counts)) :
    ∃ text, Text.Utf8.decode (bytesOf rows) = .ok text ∧ Csv.read text = table rows := by
  refine ⟨String.ofList ((table rows).flatMap Csv.record), ?_, Csv.read_records ?_⟩
  · have hbytes : bytesOf rows
        = Text.Utf8.encode (String.ofList ((table rows).flatMap Csv.record)) := by
      rw [bytesOf, Text.Utf8.encode_ofList, List.flatMap_assoc]
      exact congrArg (List.flatMap · _) (funext fun fs => Text.Utf8.encode_ofList _)
    rw [hbytes, Text.Utf8.decode_encode]
  · by_cases hrows : rows = []
    · rw [hrows]
      exact nofun
    · rw [table_of_ne_nil hrows, List.forall_mem_cons, List.forall_mem_map]
      exact ⟨by decide, fun x _ => by simp [row]⟩

/-! ## The samples of a report -/

/-- The rows of samples up to the first that cannot be compared, and what is wrong with it. -/
def compared (t : FileTree) : List Sample → List (String × Counts) × Option BatchFault
  | [] => ([], none)
  | s :: rest =>
      match Comparison.outcome s.dynamicPath s.staticPath t with
      | .error fault => ([], some fault)
      | .ok evaluation =>
          ((s.name, evaluation.counts) :: (compared t rest).1, (compared t rest).2)

theorem compared_cons_of_ok {s : Sample} {evaluation : Evaluation}
    (hs : Comparison.outcome s.dynamicPath s.staticPath t = .ok evaluation)
    (rest : List Sample) : compared t (s :: rest)
      = ((s.name, evaluation.counts) :: (compared t rest).1, (compared t rest).2) := by
  rw [compared, hs]

theorem compared_cons_of_error {s : Sample} {fault : BatchFault}
    (hs : Comparison.outcome s.dynamicPath s.staticPath t = .error fault)
    (rest : List Sample) : compared t (s :: rest) = ([], some fault) := by
  rw [compared, hs]

/-- Behind the rows of some samples come those of the others. -/
theorem rows_eq (done : List (String × Counts)) (samples : List Sample) (h : Host) : ∃ events,
    rows none (bytesOf done) samples h
      = .ok (bytesOf (done ++ (compared h.files samples).1), (compared h.files samples).2)
        { h with events } := by
  -- the bytes are those of the rows that are done, and the next row goes behind them
  induction samples generalizing done h with
  | nil => exact ⟨h.events, by rw [compared, List.append_nil]; rfl⟩
  | cons s rest ih =>
      obtain ⟨events, hrun⟩ := Comparison.run_nil s.dynamicPath s.staticPath h
      cases hout : Comparison.outcome s.dynamicPath s.staticPath h.files with
      | error fault =>
          rw [hout] at hrun
          refine ⟨events, ?_⟩
          rw [compared_cons_of_error hout, List.append_nil, rows,
            bind_of_ok (attempt_of_error hrun)]
          rfl
      | ok evaluation =>
          rw [hout] at hrun
          obtain ⟨logged, hlog⟩ : ∃ logged, (Job.log (Log.bareEvent .info Sample.part
              [("sample", s.name), ("batch", evaluation.counts.batchLine)]) : Job BatchFault Unit)
                { h with events } = .ok () { h with events := logged } := ⟨_, rfl⟩
          obtain ⟨events', hrest⟩ := ih (done ++ [(s.name, evaluation.counts)])
            { h with events := logged }
          refine ⟨events', ?_⟩
          rw [compared_cons_of_ok hout, rows, bind_of_ok (attempt_of_ok hrun)]
          dsimp only
          rw [bind_of_ok hlog, bytesOf_concat,
            List.append_cons done (s.name, evaluation.counts) (compared h.files rest).1]
          exact hrest

/-- Comparing samples changes nothing but the events, and gives the rows up to the first fault. -/
theorem ofSamples_eq (samples : List Sample) (h : Host) : ∃ events,
    ofSamples samples h = .ok ⟨bytesOf (compared h.files samples).1, (compared h.files samples).2⟩
      { h with events } := by
  obtain ⟨events, hrows⟩ := rows_eq [] samples h
  exact ⟨events, bind_of_ok hrows⟩

/-- The sample is compared without a fault. -/
def Gives (h : Host) (s : Sample) (evaluation : Evaluation) : Prop :=
  ∃ h', Comparison.run s.dynamicPath s.staticPath [] h = .ok evaluation h'

/-- If all of them can be compared, each has its row. -/
theorem compared_of_gives (hall : List.Forall₂ (Gives h) samples evaluations) :
    compared h.files samples
      = (List.zipWith (fun s evaluation => (s.name, evaluation.counts)) samples evaluations,
        none) := by
  induction hall with
  | nil => rfl
  | @cons s evaluation rest evaluations hs _ ih =>
      rw [compared_cons_of_ok (Comparison.run_nil_eq_ok_iff.1 hs), ih]
      rfl

/-- A sample that cannot be compared ends the rows, whatever comes behind it. -/
theorem compared_of_fault {front back : List Sample} {s : Sample} {fault : BatchFault} {h' : Host}
    (hfront : List.Forall₂ (Gives h) front evaluations)
    (hs : Comparison.run s.dynamicPath s.staticPath [] h = .error fault h') :
    compared h.files (front ++ s :: back) = ((compared h.files front).1, some fault) := by
  induction hfront with
  | nil =>
      exact compared_cons_of_error (Comparison.outcome_of_run_error hs) back
  | @cons q evaluation rest evaluations hq _ ih =>
      have hout := Comparison.run_nil_eq_ok_iff.1 hq
      rw [List.cons_append, compared_cons_of_ok hout, compared_cons_of_ok hout, ih]

/-- The record of a sample in a report. -/
def recordOf (s : Sample) (evaluation : Evaluation) : List String :=
  [s.name, toString evaluation.counts.truePositive, toString evaluation.counts.confirmedFalse,
    toString evaluation.counts.unknown, toString evaluation.counts.falseNegative]

/-- The table then has the header and a record for each sample, in their order. -/
theorem table_of_gives (hne : samples ≠ []) (hall : List.Forall₂ (Gives h) samples evaluations) :
    table (compared h.files samples).1
      = ["binary", "tp", "fp_c", "fp_o", "fn"] :: List.zipWith recordOf samples evaluations := by
  rw [compared_of_gives hall]
  cases hall with
  | nil => exact absurd rfl hne
  | @cons s evaluation rest evaluations _ _ =>
      refine (table_of_ne_nil (List.cons_ne_nil _ _)).trans ?_
      show header :: (List.zipWith (fun s evaluation => (s.name, evaluation.counts)) (s :: rest)
        (evaluation :: evaluations)).map _ = _
      rw [List.map_zipWith]
      rfl

/-- **REPORTS**.  Without samples nothing is written.  If all samples can be compared, the report
    reads as the header and one record for each, in their order, with its name and its
    numbers.  If one cannot, that is what is wrong, and the report is that of the samples in
    front of it, whatever comes behind.  The files stay as they are. -/
theorem ofSamples_reads_back (samples : List Sample) (h : Host) :
    (samples = [] → ofSamples samples h = .ok ⟨[], none⟩ h)
    ∧ (∀ evaluations, samples ≠ [] → List.Forall₂ (Gives h) samples evaluations →
      ∃ bytes text h', ofSamples samples h = .ok ⟨bytes, none⟩ h' ∧ h'.files = h.files
        ∧ Text.Utf8.decode bytes = .ok text
        ∧ Csv.read text
          = ["binary", "tp", "fp_c", "fp_o", "fn"] :: List.zipWith recordOf samples evaluations)
    ∧ ∀ front s back evaluations fault h₁, samples = front ++ s :: back →
      List.Forall₂ (Gives h) front evaluations →
      Comparison.run s.dynamicPath s.staticPath [] h = .error fault h₁ →
        ∃ bytes h' h'', ofSamples samples h = .ok ⟨bytes, some fault⟩ h' ∧ h'.files = h.files
          ∧ ofSamples front h = .ok ⟨bytes, none⟩ h'' := by
  refine ⟨?_, fun evaluations hne hall => ?_, ?_⟩
  · rintro rfl
    rfl
  · obtain ⟨events, hreport⟩ := ofSamples_eq samples h
    obtain ⟨text, htext, hread⟩ := decode_bytesOf (compared h.files samples).1
    -- with no fault the table is that of all samples
    rw [table_of_gives hne hall] at hread
    have hnone : (compared h.files samples).2 = none := by rw [compared_of_gives hall]
    rw [hnone] at hreport
    exact ⟨_, text, _, hreport, rfl, htext, hread⟩
  · rintro front s back evaluations fault h₁ rfl hfront hs
    obtain ⟨events, hreport⟩ := ofSamples_eq (front ++ s :: back) h
    obtain ⟨events', hbefore⟩ := ofSamples_eq front h
    have hnone : (compared h.files front).2 = none := by rw [compared_of_gives hfront]
    rw [compared_of_fault hfront hs] at hreport
    rw [hnone] at hbefore
    exact ⟨_, _, _, hreport, rfl, hbefore⟩

/-- A name with a comma, quotes and a line end is in a field of its own, and the row is there
    although the next sample has no capture. -/
theorem ofSamples_reads_back_quoted :
    let sample : Sample := ⟨"a,\"b\"\r\n", ⟨[99]⟩, ⟨[115]⟩⟩
    let absent : Sample := ⟨"x", ⟨[120]⟩, ⟨[115]⟩⟩
    ∃ bytes text fault h',
      ofSamples [sample, absent, sample] ⟨Comparison.bothCaptures, []⟩
        = .ok ⟨bytes, some fault⟩ h'
      ∧ Text.Utf8.decode bytes = .ok text
      ∧ Csv.read text = [["binary", "tp", "fp_c", "fp_o", "fn"],
        ["a,\"b\"\r\n", "0", "2", "0", "1"]] := by
  intro sample absent
  obtain ⟨hrich, hlegacy⟩ := Comparison.stored_bothCaptures
  have hsample : Gives ⟨Comparison.bothCaptures, []⟩ sample ⟨"d", 0, 1, 2, ⟨0, 2, 0, 1⟩⟩ := by
    refine Comparison.run_nil_eq_ok_iff.2 ?_
    rw [Comparison.outcome, hrich, hlegacy]
    decide +kernel
  have hwhole := List.Forall₂.cons hsample .nil
  have hmissing : RichCapture.stored ⟨[120]⟩ Comparison.bothCaptures = .error (.ofIo .missing) := by
    have hloc : Comparison.bothCaptures.fileAt? ⟨[120]⟩ = some [[120]] :=
      FileTree.fileAt?_name rfl rfl rfl (by decide) (Or.inl rfl)
    rw [RichCapture.stored, sourceAt, FileTree.locate_of_absent hloc rfl]
    rfl
  obtain ⟨-, -, hfails⟩ := ofSamples_reads_back [sample, absent, sample] ⟨_, []⟩
  obtain ⟨bytes, h', h'', hreport, -, hfront⟩ := hfails [sample] absent [sample] _ _ _ rfl hwhole
    (Comparison.run_of_no_capture hmissing _ [])
  obtain ⟨-, hreads, -⟩ := ofSamples_reads_back [sample] ⟨Comparison.bothCaptures, []⟩
  obtain ⟨bytes', text, _, hfront', -, htext, hread⟩ := hreads _ (List.cons_ne_nil _ _) hwhole
  cases hfront'.symm.trans hfront
  exact ⟨bytes, text, _, h', hreport, htext, hread⟩

/-- Without samples there is no header. -/
theorem ofSamples_nil_without_header :
    let h : Host := ⟨⟨[], []⟩, []⟩
    List.Forall₂ (Gives h) [] []
    ∧ ∃ bytes text, ofSamples [] h = .ok ⟨bytes, none⟩ h ∧ Text.Utf8.decode bytes = .ok text
      ∧ Csv.read text
        ≠ ["binary", "tp", "fp_c", "fp_o", "fn"] :: List.zipWith recordOf [] [] :=
  ⟨.nil, [], "", rfl, by decide, by decide⟩

end Report

end ExecTruth
