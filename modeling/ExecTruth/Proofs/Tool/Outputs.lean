import ExecTruth.Proofs.Capture.Layout
import ExecTruth.Proofs.Capture.LegacyRoundTrip
import ExecTruth.Proofs.Files.Directories
import ExecTruth.Tool.Disassemble

/-! # Outputs — what disassembling a directory leaves behind

    Of each file the tool makes two others, or one, or none, and shows a line or none.  All of
    this is told by the tree as it is before the first file (`settle`), as long as writing
    outputs touches no input: what the disassembler prints of a file does not change, and nor do
    the files that paths open.  So a run puts the files of all names, one name after the other
    (`run_eq`). -/

namespace ExecTruth

open Job

namespace Tool.Disassemble

variable {d : Disassembler} {program : String} {inputDir outputDir p : Path} {t t' : FileTree}
  {h : Host} {name : String} {fileName output : List UInt8} {changed : Location → Prop}

/-! ## One file -/

/-- The line that is shown of a file. -/
def summary (name : String) (listing : Listing) : String :=
  name ++ ": " ++ toString listing.starts.size ++ " instructions, "
    ++ toString listing.undecoded ++ " undecodable\n"

/-- The summary is put together of these pieces. -/
theorem summary_eq (name : String) (listing : Listing) :
    s!"{name}: {listing.starts.size} instructions, " ++ s!"{listing.undecoded} undecodable\n"
      = summary name listing := by
  show name ++ ": " ++ toString listing.starts.size ++ " instructions, "
    ++ (toString listing.undecoded ++ " undecodable\n") = _
  rw [summary, ← String.append_assoc]

/-- What the disassembler prints of a file on which it succeeds. -/
def printed? (d : Disassembler) (program : String) (t : FileTree) (input : Path) :
    Option (List UInt8) :=
  (d t program input).toOption.bind fun r => if r.status = 0 then some r.output else none

/-- The bytes of the capture of what is printed. -/
def captureBytes (output : List UInt8) : List UInt8 :=
  (Listing.ofText (Text.Utf8.decodeLossy output)).starts.keys.flatMap Word.encodeOffset

/-- The files that are made for a name, and the line that is shown. -/
def settle (d : Disassembler) (program : String) (inputDir outputDir : Path) (t : FileTree)
    (name : String) : List (Location × List UInt8) × String :=
  match printed? d program t (inputDir.join ⟨Text.Utf8.encode name⟩),
    t.fileAt? (rawPath outputDir name), t.fileAt? (capturePath outputDir name) with
  | some output, some raw, some capture =>
      ([(raw, output), (capture, captureBytes output)],
        summary name (Listing.ofText (Text.Utf8.decodeLossy output)))
  | some output, some raw, none => ([(raw, output)], "")
  | _, _, _ => ([], "")

/-- What a path opens for writing is a file, if anything. -/
def NoDevice (t : FileTree) (p : Path) : Prop :=
  ∀ target, t.targetAt? p = some target → ∃ loc, target = .file loc

/-- A path that opens neither device nor file opens nothing. -/
theorem targetAt?_eq_none (hdevice : NoDevice t p) (hnone : t.fileAt? p = none) :
    t.targetAt? p = none := by
  cases htarget : t.targetAt? p with
  | none => rfl
  | some target =>
      obtain ⟨loc, rfl⟩ := hdevice target htarget
      exact nomatch hnone.symm.trans (FileTree.targetAt?_eq_file_iff.1 htarget)

/-- Addresses that are none yet are written as they are. -/
theorem emit_zero (l : List Int64) :
    Legacy.emit 0 l = ⟨l.flatMap Word.encodeOffset, none⟩ := by
  refine Legacy.emit_of_rebased ?_
  rw [Legacy.Rebased]
  simp

/-- Writing bytes through a path that opens no device fills a file, or fails. -/
theorem sendTo_cases {ε : Type} (ofIo : IoFault → ε) (hdevice : NoDevice h.files p)
    (bytes : List UInt8) :
    (∃ loc, h.files.fileAt? p = some loc ∧ sendTo p ofIo ⟨bytes, none⟩ h
      = .ok () { h with files := h.files.put loc (.file bytes) })
    ∨ h.files.fileAt? p = none ∧ ∃ fault, sendTo p ofIo ⟨bytes, none⟩ h = .error fault h := by
  cases hloc : h.files.fileAt? p with
  | some loc => exact Or.inl ⟨loc, rfl, sendTo_of_fileAt? hloc⟩
  | none =>
      obtain ⟨fault, hfail⟩ := create_of_no_target (targetAt?_eq_none hdevice hloc)
      exact Or.inr ⟨rfl, ofIo fault, bind_of_error (wrap_eq_error_iff.2 ⟨fault, hfail, rfl⟩)⟩

/-- A file that is put in its room makes no path lead to a device. -/
theorem noDevice_put (hroom : t.HasRoom loc) (contents : List UInt8) (hdevice : NoDevice t p) :
    NoDevice (t.put loc (.file contents)) p := by
  intro target htarget
  rw [(FileTree.ChangedAt.of_put hroom contents).targets p] at htarget
  exact hdevice target htarget

/-- What counts as printed is the output of a program that ends without an error. -/
theorem printed?_eq_some_iff {input : Path} : printed? d program t input = some output
    ↔ ∃ r, d t program input = .ok r ∧ r.status = 0 ∧ r.output = output := by
  rw [printed?]
  cases d t program input with
  | error fault => exact iff_of_false nofun fun ⟨_, hr, _⟩ => nomatch hr
  | ok r =>
      by_cases hstatus : r.status = 0
      · simp [Except.toOption, hstatus]
      · simp [Except.toOption, hstatus]

/-- Bytes are written at once, as an emission without a fault. -/
theorem writeAll_eq (p : Path) (bytes : List UInt8) :
    writeAll p bytes = sendTo p id ⟨bytes, none⟩ := by
  have hcreate : wrap id (create p) = create p := by
    funext h
    rw [wrap, EStateM.adaptExcept]
    cases create p h <;> rfl
  rw [writeAll, sendTo, hcreate]

/-- Writes what is printed of a file, and the capture. -/
def keep (outputDir : Path) (name : String) (output : List UInt8) : Job Failure Listing := do
  Failure.lift (sendTo (rawPath outputDir name) id ⟨output, none⟩)
  let listing := Listing.ofText (Text.Utf8.decodeLossy output)
  Failure.lift (sendTo (capturePath outputDir name) .ofIo (Legacy.emit 0 listing.starts.keys))
  return listing

/-- What was printed is kept. -/
theorem single_of_printed {input : Path}
    (hprinted : printed? d program h.files input = some output) :
    single d program input outputDir name h = keep outputDir name output h := by
  obtain ⟨r, hr, hstatus, rfl⟩ := printed?_eq_some_iff.1 hprinted
  have hran : Failure.doing ("unable to run " ++ program)
      (do Job.ofExcept (d (← Job.files) program input)) h = .ok r h := by
    refine wrap_eq_ok_iff.2 ?_
    rw [bind_of_ok (files_apply h), hr, ofExcept_ok]
  have hout : (Job.ofExcept (outputOf program r) : Job Failure _) h = .ok r.output h := by
    rw [outputOf, if_pos hstatus, ofExcept_ok]
  rw [single, bind_of_ok hran, bind_of_ok hout, writeAll_eq]
  rfl

/-- Where nothing was printed, nothing is made. -/
theorem single_of_not_printed {input : Path} (hprinted : printed? d program h.files input = none) :
    ∃ failure, single d program input outputDir name h = .error failure h := by
  cases hr : d h.files program input with
  | error fault =>
      have hran : Failure.doing ("unable to run " ++ program)
          (do Job.ofExcept (d (← Job.files) program input)) h
          = .error (Failure.within ("unable to run " ++ program) fault) h := by
        refine wrap_eq_error_iff.2 ⟨fault, ?_, rfl⟩
        rw [bind_of_ok (files_apply h), hr, ofExcept_error]
      exact ⟨_, bind_of_error hran⟩
  | ok r =>
      -- the program ran, so it must have ended with an error
      have hstatus : r.status ≠ 0 := by
        intro hzero
        exact nomatch hprinted.symm.trans (printed?_eq_some_iff.2 ⟨r, hr, hzero, rfl⟩)
      have hran : Failure.doing ("unable to run " ++ program)
          (do Job.ofExcept (d (← Job.files) program input)) h = .ok r h := by
        refine wrap_eq_ok_iff.2 ?_
        rw [bind_of_ok (files_apply h), hr, ofExcept_ok]
      rw [single, bind_of_ok hran, outputOf, if_neg hstatus]
      exact ⟨_, rfl⟩

/-- What is printed is written first, and nothing is written behind a failure. -/
theorem keep_cases (hraw : NoDevice h.files (rawPath outputDir name))
    (hcapture : NoDevice h.files (capturePath outputDir name)) (output : List UInt8) :
    (h.files.fileAt? (rawPath outputDir name) = none
      ∧ ∃ failure, keep outputDir name output h = .error failure h)
    ∨ (∃ raw, h.files.fileAt? (rawPath outputDir name) = some raw
      ∧ h.files.fileAt? (capturePath outputDir name) = none
      ∧ ∃ failure, keep outputDir name output h
        = .error failure { h with files := h.files.putAll [(raw, output)] })
    ∨ ∃ raw capture, h.files.fileAt? (rawPath outputDir name) = some raw
      ∧ h.files.fileAt? (capturePath outputDir name) = some capture
      ∧ keep outputDir name output h = .ok (Listing.ofText (Text.Utf8.decodeLossy output))
        { h with files := h.files.putAll [(raw, output), (capture, captureBytes output)] } := by
  rcases sendTo_cases id hraw output with ⟨raw, hopen, hwrite⟩ | ⟨hopen, fault, hfail⟩
  · have hroom := FileTree.hasRoom_of_fileAt? hopen
    have hsame := (hroom.agreeBut_put output).fileAt?_eq (capturePath outputDir name)
    have hfirst : Failure.lift (sendTo (rawPath outputDir name) id ⟨output, none⟩) h
        = .ok () { h with files := h.files.put raw (.file output) } := wrap_eq_ok_iff.2 hwrite
    have hbytes : Legacy.emit 0 (Listing.ofText (Text.Utf8.decodeLossy output)).starts.keys
        = ⟨captureBytes output, none⟩ := emit_zero _
    rw [keep, bind_of_ok hfirst, hbytes]
    rcases sendTo_cases (h := { h with files := h.files.put raw (.file output) })
      CaptureFault.ofIo (noDevice_put hroom output hcapture) (captureBytes output) with
      ⟨capture, hopen', hwrite'⟩ | ⟨hopen', fault, hfail⟩
    · refine Or.inr (Or.inr ⟨raw, capture, hopen, hsame.symm.trans hopen', ?_⟩)
      rw [FileTree.putAll_cons, FileTree.putAll_cons, FileTree.putAll_nil]
      exact bind_of_ok (wrap_eq_ok_iff.2 hwrite')
    · refine Or.inr (Or.inl ⟨raw, hopen, hsame.symm.trans hopen', .of fault, ?_⟩)
      exact bind_of_error (wrap_eq_error_iff.2 ⟨fault, hfail, rfl⟩)
  · exact Or.inl ⟨hopen, .of fault, bind_of_error (wrap_eq_error_iff.2 ⟨fault, hfail, rfl⟩)⟩

/-- The job of one file makes what is to be made for it, whether it succeeds or not. -/
theorem single_settles (d : Disassembler) (program : String) (inputDir : Path)
    (hraw : NoDevice h.files (rawPath outputDir name))
    (hcapture : NoDevice h.files (capturePath outputDir name)) :
    let made := settle d program inputDir outputDir h.files name
    let after : Host := { h with files := h.files.putAll made.1 }
    (∃ listing, single d program (inputDir.join ⟨Text.Utf8.encode name⟩) outputDir name h
        = .ok listing after ∧ made.2 = summary name listing)
    ∨ ∃ failure, single d program (inputDir.join ⟨Text.Utf8.encode name⟩) outputDir name h
        = .error failure after ∧ made.2 = "" := by
  dsimp only
  cases hprinted : printed? d program h.files (inputDir.join ⟨Text.Utf8.encode name⟩) with
  | none =>
      obtain ⟨failure, hfail⟩ := single_of_not_printed hprinted
      rw [settle, hprinted]
      exact Or.inr ⟨failure, hfail, rfl⟩
  | some output =>
      rw [single_of_printed hprinted]
      rcases keep_cases hraw hcapture output with
        ⟨hopen, failure, hfail⟩ | ⟨raw, hopen, hopen', failure, hfail⟩
        | ⟨raw, capture, hopen, hopen', hkeep⟩
      · rw [settle, hprinted, hopen]
        exact Or.inr ⟨failure, hfail, rfl⟩
      · rw [settle, hprinted, hopen, hopen']
        exact Or.inr ⟨failure, hfail, rfl⟩
      · rw [settle, hprinted, hopen, hopen']
        exact Or.inl ⟨_, hkeep, rfl⟩

/-- What is made for a file name, and shown; nothing, if it is no text. -/
def settleFile (d : Disassembler) (program : String) (inputDir outputDir : Path) (t : FileTree)
    (fileName : List UInt8) : List (Location × List UInt8) × String :=
  match Text.Utf8.decode fileName with
  | .ok name => settle d program inputDir outputDir t name
  | .error _ => ([], "")

/-- A file whose name is a text is settled under that name. -/
theorem settleFile_encode (d : Disassembler) (program : String) (inputDir outputDir : Path)
    (t : FileTree) (name : String) :
    settleFile d program inputDir outputDir t (Text.Utf8.encode name)
      = settle d program inputDir outputDir t name := by
  rw [settleFile, Text.Utf8.decode_encode]

/-- No output of a file is a device. -/
def Plain (t : FileTree) (outputDir : Path) (fileName : List UInt8) : Prop :=
  ∀ name, Text.Utf8.encode name = fileName →
    NoDevice t (rawPath outputDir name) ∧ NoDevice t (capturePath outputDir name)

/-- Running the program on a file makes what was settled for it, and reports. -/
theorem entry_settles (d : Disassembler) (program : String) (inputDir : Path)
    (hplain : Plain h.files outputDir fileName) : ∃ events,
    entry d program inputDir outputDir fileName h
      = .ok (settleFile d program inputDir outputDir h.files fileName).2
        ⟨h.files.putAll (settleFile d program inputDir outputDir h.files fileName).1, events⟩ := by
  rw [entry, settleFile]
  cases hdecode : Text.Utf8.decode fileName with
  | error fault => exact ⟨_, rfl⟩
  | ok name =>
      have hname := Text.Utf8.decode_eq_ok_iff.1 hdecode
      obtain ⟨hraw, hcapture⟩ := hplain name hname
      rcases single_settles d program inputDir hraw hcapture with
        ⟨listing, hok, hline⟩ | ⟨failure, hfail, hline⟩
      · rw [hname] at hok
        refine ⟨h.events, (bind_of_ok (attempt_of_ok hok)).trans ?_⟩
        show EStateM.Result.ok _ _ = EStateM.Result.ok _ _
        rw [hline, ← summary_eq]
      · rw [hname] at hfail
        exact ⟨_, (bind_of_ok (attempt_of_error hfail)).trans
          (congrArg (EStateM.Result.ok · _) hline.symm)⟩

/-! ## One file after the other -/

/-- The disassembler looks at no other file than the one that it is given. -/
def LooksAtInput (d : Disassembler) : Prop :=
  ∀ t t' program p, t'.nodeAt? p = t.nodeAt? p → d t' program p = d t program p

/-- Where only contents changed, every path leads to the file that it led to. -/
theorem fileAt?_of_changedAt (hchanged : t.ChangedAt changed t') (p : Path) :
    t'.fileAt? p = t.fileAt? p := by
  ext loc
  rw [← FileTree.targetAt?_eq_file_iff,
    ← FileTree.targetAt?_eq_file_iff, hchanged.targets p]

/-- What is made of a file is told by the tree of before, as long as its input is the same. -/
theorem settleFile_of_changedAt (hlooks : LooksAtInput d) (hchanged : t.ChangedAt changed t')
    (hinput : t'.nodeAt? (inputDir.join ⟨fileName⟩) = t.nodeAt? (inputDir.join ⟨fileName⟩)) :
    settleFile d program inputDir outputDir t' fileName
      = settleFile d program inputDir outputDir t fileName := by
  rw [settleFile, settleFile]
  cases hdecode : Text.Utf8.decode fileName with
  | error fault => rfl
  | ok name =>
      have hprinted : printed? d program t' (inputDir.join ⟨Text.Utf8.encode name⟩)
          = printed? d program t (inputDir.join ⟨Text.Utf8.encode name⟩) := by
        rw [Text.Utf8.decode_eq_ok_iff.1 hdecode, printed?, printed?, hlooks _ _ _ _ hinput]
      dsimp only
      rw [settle, settle, hprinted, fileAt?_of_changedAt hchanged, fileAt?_of_changedAt hchanged]

/-- What is settled is put where there is room. -/
theorem hasRoom_of_settleFile {w : Location × List UInt8}
    (hw : w ∈ (settleFile d program inputDir outputDir t fileName).1) : t.HasRoom w.1 := by
  rw [settleFile] at hw
  split at hw
  · rw [settle] at hw
    split at hw
    · next hraw hcapture =>
        rcases List.mem_cons.1 hw with rfl | hw
        · exact FileTree.hasRoom_of_fileAt? hraw
        · rw [List.mem_singleton.1 hw]
          exact FileTree.hasRoom_of_fileAt? hcapture
    · next hraw _ =>
        rw [List.mem_singleton.1 hw]
        exact FileTree.hasRoom_of_fileAt? hraw
    · exact nomatch hw
  · exact nomatch hw

/-- A path that leads to no device leads to none where only contents changed. -/
theorem plain_of_changedAt (hchanged : t.ChangedAt changed t')
    (hplain : Plain t outputDir fileName) : Plain t' outputDir fileName := by
  intro name hname
  obtain ⟨hraw, hcapture⟩ := hplain name hname
  refine ⟨fun target htarget => hraw target ?_, fun target htarget => hcapture target ?_⟩
  · rw [← htarget, hchanged.targets]
  · rw [← htarget, hchanged.targets]

/-- Of files one after the other, each makes what it would make alone. -/
theorem mapM_entry (program : String) (changed : Location → Prop) {l : List (List UInt8)}
    (hlooks : LooksAtInput d)
    (hplain : ∀ n ∈ l, Plain t outputDir n)
    (hinputs : ∀ t', t.ChangedAt changed t' → ∀ n ∈ l,
      t'.nodeAt? (inputDir.join ⟨n⟩) = t.nodeAt? (inputDir.join ⟨n⟩))
    (houtputs : ∀ n ∈ l, ∀ w ∈ (settleFile d program inputDir outputDir t n).1, changed w.1)
    (hlater : t.ChangedAt changed h.files) : ∃ events,
    l.mapM (entry d program inputDir outputDir) h
      = .ok (l.map fun n => (settleFile d program inputDir outputDir t n).2)
        ⟨h.files.putAll (l.flatMap fun n => (settleFile d program inputDir outputDir t n).1),
          events⟩ := by
  induction l generalizing h with
  | nil => exact ⟨h.events, rfl⟩
  | cons n rest ih =>
      have hsame : settleFile d program inputDir outputDir h.files n
          = settleFile d program inputDir outputDir t n :=
        settleFile_of_changedAt hlooks hlater (hinputs _ hlater n List.mem_cons_self)
      obtain ⟨events, hentry⟩ := entry_settles d program inputDir
        (plain_of_changedAt hlater (hplain n List.mem_cons_self))
      have hroom : ∀ w ∈ (settleFile d program inputDir outputDir t n).1, h.files.HasRoom w.1 := by
        intro w hw
        rw [← hsame] at hw
        exact hasRoom_of_settleFile hw
      have hafter : t.ChangedAt changed
          (h.files.putAll (settleFile d program inputDir outputDir t n).1) := by
        refine hlater.trans ((FileTree.changedAt_putAll hroom).mono fun loc hloc => ?_)
        obtain ⟨w, hw, rfl⟩ := List.mem_map.1 hloc
        exact houtputs n List.mem_cons_self w hw
      rw [hsame] at hentry
      obtain ⟨events', hrest⟩ := ih (h := ⟨_, events⟩)
        (fun n hn => hplain n (List.mem_cons_of_mem _ hn))
        (fun t' ht' n hn => hinputs t' ht' n (List.mem_cons_of_mem _ hn))
        (fun n hn => houtputs n (List.mem_cons_of_mem _ hn)) hafter
      refine ⟨events', ?_⟩
      rw [List.mapM_cons, bind_of_ok hentry, List.flatMap_cons, FileTree.putAll_append]
      exact bind_of_ok hrest

/-- The disassembler that the arguments ask for. -/
def programOf (args : Arguments) : String := (args.value? "objdump").getD "objdump"

/-- What is made for a file of the input directory of a run, and shown. -/
def settled (d : Disassembler) (args : Arguments) (t : FileTree) (fileName : List UInt8) :
    List (Location × List UInt8) × String :=
  settleFile d (programOf args) (args.path 0) (args.path 1) t fileName

/-- What is made for all files of the input directory. -/
def allSettled (d : Disassembler) (args : Arguments) (t : FileTree) (inputLoc : Location) :
    List (Location × List UInt8) :=
  (t.fileNames inputLoc).flatMap fun n => (settled d args t n).1

/-- A run makes for all files what is to be made for each, as long as no output is a device or
    stands in the input directory. -/
theorem run_eq {args : Arguments} {h₀ : Host} {inputLoc : Location} (hlooks : LooksAtInput d)
    (hmade : makeDirectories (args.path 1) h = .ok () h₀)
    (hinput : h₀.files.locate (args.path 0) = .ok (inputLoc, .directory))
    (hdistinct : h₀.files.Distinct) (hnamed : h₀.files.Named inputLoc)
    (hplain : ∀ n ∈ h₀.files.fileNames inputLoc, Plain h₀.files (args.path 1) n)
    (hapart : ∀ n ∈ h₀.files.fileNames inputLoc, ∀ w ∈ (settled d args h₀.files n).1,
      ∀ m, w.1 ≠ inputLoc ++ [m]) : ∃ events,
    run d args h
      = .ok (String.join ((h₀.files.fileNames inputLoc).map fun n => (settled d args h₀.files n).2))
        ⟨h₀.files.putAll (allSettled d args h₀.files inputLoc), events⟩ := by
  have hlist : Job.listDirectory (args.path 0) h₀ = .ok (h₀.files.entries inputLoc) h₀ := by
    rw [Job.listDirectory, bind_of_ok (files_apply h₀), hinput]
    rfl
  obtain ⟨events, hall⟩ := mapM_entry (h := h₀) (programOf args)
    (fun loc => ∀ m, loc ≠ inputLoc ++ [m]) hlooks hplain
    (fun t' hchanged n hn => by
      obtain ⟨contents, hfile⟩ := (FileTree.mem_fileNames_iff hdistinct).1 hn
      exact FileTree.nodeAt?_join_of_changedAt hinput hnamed hfile hchanged
        fun hne => hne n rfl)
    hapart (.refl _ _)
  refine ⟨events, ?_⟩
  have hdoing : Failure.doing ("unable to create " ++ (args.path 1).quoted)
      (makeDirectories (args.path 1)) h = .ok () h₀ := wrap_eq_ok_iff.2 hmade
  have hlisting : Failure.doing ("unable to list " ++ (args.path 0).quoted)
      (Job.listDirectory (args.path 0)) h₀ = .ok (h₀.files.entries inputLoc) h₀ :=
    wrap_eq_ok_iff.2 hlist
  rw [run, bind_of_ok hdoing, bind_of_ok hlisting]
  exact bind_of_ok hall

end Tool.Disassemble

end ExecTruth
