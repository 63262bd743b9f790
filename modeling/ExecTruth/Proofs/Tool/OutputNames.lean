import ExecTruth.Proofs.Tool.Outputs

/-! # Output names — outputs in a directory of their own

    Outputs are called as the inputs are but for two endings, so outputs of two files are called
    differently (`eq_of_mem_outputNames`).  In a directory of their own they meet neither inputs
    nor each other, and each file has its own outcome (`run_outcomes`).

    Some names have no room for the endings, a directory may stand where an output is to be,
    and links can make outputs meet after all (`run_leaves_out`). -/

namespace ExecTruth.Tool.Disassemble

open Job FileTree

variable {d : Disassembler} {program : String} {inputDir outputDir p : Path} {t t' : FileTree}
  {name : String} {fileName output : List UInt8}

/-! ## The names of outputs -/

/-- The name of the file with what the disassembler prints. -/
def rawName (name : String) : List UInt8 := Text.Utf8.encode (name ++ "_objdump_raw.txt")

/-- The name of the file with the capture. -/
def captureName (name : String) : List UInt8 := Text.Utf8.encode (name ++ "_objdump.out")

/-- The names of the outputs of a file. -/
def outputNames (name : String) : List (List UInt8) := [rawName name, captureName name]

/-- Names with one ending are as different as without it. -/
theorem append_injective (ending : String) :
    Function.Injective fun name => Text.Utf8.encode (name ++ ending) := by
  intro a b hab
  dsimp only at hab
  rw [Text.Utf8.encode_append, Text.Utf8.encode_append] at hab
  exact Text.Utf8.encode_injective (List.append_inj_left' hab rfl)

theorem rawName_injective : Function.Injective rawName := append_injective _

theorem captureName_injective : Function.Injective captureName := append_injective _

/-- No raw listing has the name of a capture, whatever names the endings are put to. -/
theorem rawName_ne_captureName (a b : String) : rawName a ≠ captureName b := by
  intro hab
  rw [rawName, captureName, Text.Utf8.encode_append, Text.Utf8.encode_append] at hab
  -- the last byte but one is another
  have hlast := congrArg (fun l => l.reverse[1]?) hab
  simp only [List.reverse_append] at hlast
  rw [List.getElem?_append_left (by decide), List.getElem?_append_left (by decide)] at hlast
  revert hlast
  decide

/-- An ending makes a name of a name. -/
theorem isName_append {ending : String} (hname : Path.IsName (Text.Utf8.encode name))
    (hslash : Path.slash ∉ Text.Utf8.encode ending) {b : UInt8}
    (hb : b ∈ Text.Utf8.encode ending) (hdot : b ≠ Path.dot) :
    Path.IsName (Text.Utf8.encode (name ++ ending)) := by
  rw [Text.Utf8.encode_append]
  refine Path.isName_of_mem ?_ (List.mem_append_right _ hb) hdot
  rw [List.mem_append]
  exact not_or.2 ⟨hname.slash_notMem, hslash⟩

theorem isName_of_mem_outputNames (hname : Path.IsName (Text.Utf8.encode name))
    {o : List UInt8} (ho : o ∈ outputNames name) : Path.IsName o := by
  rcases List.mem_cons.1 ho with rfl | ho
  · exact isName_append (b := 95) hname (by decide) (by decide) (by decide)
  · rw [List.mem_singleton.1 ho]
    exact isName_append (b := 95) hname (by decide) (by decide) (by decide)

/-- The two outputs of a file have different names. -/
theorem nodup_outputNames (name : String) : (outputNames name).Nodup :=
  List.nodup_cons.2 ⟨fun h => rawName_ne_captureName name name (List.mem_singleton.1 h),
    List.nodup_singleton _⟩

/-- Outputs of two files are called differently. -/
theorem eq_of_mem_outputNames {a b : String} {o : List UInt8} (ha : o ∈ outputNames a)
    (hb : o ∈ outputNames b) : a = b := by
  rcases List.mem_cons.1 ha with rfl | ha
  · rcases List.mem_cons.1 hb with hb | hb
    · exact rawName_injective hb
    · exact absurd (List.mem_singleton.1 hb) (rawName_ne_captureName a b)
  · rw [List.mem_singleton.1 ha] at hb
    rcases List.mem_cons.1 hb with hb | hb
    · exact absurd hb.symm (rawName_ne_captureName b a)
    · exact captureName_injective (List.mem_singleton.1 hb)

/-- The locations of the outputs of a file; none, if its name is no text. -/
def outputLocs (outputLoc : Location) (fileName : List UInt8) : List Location :=
  match Text.Utf8.decode fileName with
  | .ok name => (outputNames name).map (outputLoc ++ [·])
  | .error _ => []

theorem outputLocs_encode (outputLoc : Location) (name : String) :
    outputLocs outputLoc (Text.Utf8.encode name) = (outputNames name).map (outputLoc ++ [·]) := by
  rw [outputLocs, Text.Utf8.decode_encode]

/-- A place is one of an output if it has the name of one. -/
theorem mem_outputLocs_iff {outputLoc loc : Location} : loc ∈ outputLocs outputLoc fileName
    ↔ ∃ name, Text.Utf8.encode name = fileName
      ∧ ∃ o ∈ outputNames name, loc = outputLoc ++ [o] := by
  constructor
  · intro hloc
    rw [outputLocs] at hloc
    cases hdecode : Text.Utf8.decode fileName with
    | error fault =>
        rw [hdecode] at hloc
        exact nomatch hloc
    | ok name =>
        rw [hdecode] at hloc
        obtain ⟨o, ho, rfl⟩ := List.mem_map.1 hloc
        exact ⟨name, Text.Utf8.decode_eq_ok_iff.1 hdecode, o, ho, rfl⟩
  · rintro ⟨name, rfl, o, ho, rfl⟩
    rw [outputLocs_encode]
    exact List.mem_map.2 ⟨o, ho, rfl⟩

/-- The two outputs of a file have different places. -/
theorem nodup_outputLocs (outputLoc : Location) (fileName : List UInt8) :
    (outputLocs outputLoc fileName).Nodup := by
  rw [outputLocs]
  split
  · next name _ =>
      refine List.Nodup.map (fun a b hab => ?_) ?_
      · exact (List.cons.inj (List.append_cancel_left hab)).1
      · exact nodup_outputNames name
  · exact List.nodup_nil

/-- Outputs of two files are in two places. -/
theorem eq_of_mem_outputLocs {outputLoc loc : Location} {a b : List UInt8}
    (ha : loc ∈ outputLocs outputLoc a) (hb : loc ∈ outputLocs outputLoc b) : a = b := by
  obtain ⟨name, rfl, o, ho, rfl⟩ := mem_outputLocs_iff.1 ha
  obtain ⟨name', rfl, o', ho', heq⟩ := mem_outputLocs_iff.1 hb
  obtain rfl := (List.cons.inj (List.append_cancel_left heq)).1
  rw [eq_of_mem_outputNames ho ho']

/-! ## Outputs in a directory of their own -/

/-- There is room for a file of that name in the directory that a path leads to. -/
structure Writable (t : FileTree) (p : Path) (dir : Location) (fileName : List UInt8) : Prop where
  spelt : (p.join ⟨fileName⟩).fault? = none
  fits : fileName.length ≤ Walk.maxName
  room : t.HasRoom (dir ++ [fileName])

/-- Where the files are read and written.  Under the names of outputs there are files and
    directories only, so that outputs are what they are called. -/
structure Directories (t : FileTree) (inputDir outputDir : Path)
    (inputLoc outputLoc : Location) : Prop where
  distinct : t.Distinct
  input : t.locate inputDir = .ok (inputLoc, .directory)
  output : t.locate outputDir = .ok (outputLoc, .directory)
  apart : inputLoc ≠ outputLoc
  named : t.Named inputLoc
  plain : ∀ name contents, t.find? (inputLoc ++ [Text.Utf8.encode name]) = some (.file contents) →
    ∀ o ∈ outputNames name, ∀ node, t.find? (outputLoc ++ [o]) = some node →
      node = .directory ∨ ∃ old, node = .file old

variable {inputLoc outputLoc dir : Location}

/-- A name in a directory opens no device, unless a link or a device has that name. -/
theorem noDevice_join (hdir : t.locate p = .ok (dir, .directory)) (hname : Path.IsName fileName)
    (hplain : ∀ node, t.find? (dir ++ [fileName]) = some node →
      node = .directory ∨ ∃ old, node = .file old) : NoDevice t (p.join ⟨fileName⟩) := by
  have hlink : ∀ target, t.find? (dir ++ [fileName]) ≠ some (.link target) := by
    intro target hfind
    rcases hplain _ hfind with h | ⟨_, h⟩ <;> cases h
  intro target htarget
  rw [FileTree.targetAt?] at htarget
  -- a path that cannot be spelt opens nothing
  cases hfault : (p.join ⟨fileName⟩).fault? with
  | some fault =>
      rw [Walk.run, hfault] at htarget
      cases htarget
  | none =>
      rw [FileTree.run_join hdir hname hlink hfault, FileTree.placeIn] at htarget
      split at htarget
      · cases htarget
      · split at htarget
        · cases htarget
          exact ⟨_, rfl⟩
        · next node hfind =>
            rcases hplain node hfind with rfl | ⟨old, rfl⟩
            · cases htarget
            · cases htarget
              exact ⟨_, rfl⟩

namespace Directories

variable {contents : List UInt8} {o : List UInt8} {loc : Location}
  (hdirs : Directories t inputDir outputDir inputLoc outputLoc)
  (hfile : t.find? (inputLoc ++ [Text.Utf8.encode name]) = some (.file contents))
include hdirs hfile

theorem isName (ho : o ∈ outputNames name) : Path.IsName o :=
  isName_of_mem_outputNames (hdirs.named _ _ hfile).1 ho

/-- Neither output of an input file opens a device. -/
theorem plain_of_file : Plain t outputDir (Text.Utf8.encode name) := by
  intro name' hname'
  cases Text.Utf8.encode_injective hname'
  have hdevice : ∀ o ∈ outputNames name, NoDevice t (outputDir.join ⟨o⟩) := fun o ho =>
    noDevice_join hdirs.output (hdirs.isName hfile ho) (hdirs.plain _ _ hfile o ho)
  exact ⟨hdevice _ List.mem_cons_self, hdevice _ (List.mem_cons_of_mem _ List.mem_cons_self)⟩

/-- What is opened for an output is the file that has its name. -/
theorem fileAt?_eq_some_iff (ho : o ∈ outputNames name) :
    t.fileAt? (outputDir.join ⟨o⟩) = some loc
      ↔ Writable t outputDir outputLoc o ∧ loc = outputLoc ++ [o] := by
  have hlink : ∀ target, t.find? (outputLoc ++ [o]) ≠ some (.link target) := by
    intro target hfind
    rcases hdirs.plain _ _ hfile o ho _ hfind with h | ⟨_, h⟩ <;> cases h
  rw [FileTree.fileAt?_join_eq_some_iff hdirs.output (hdirs.isName hfile ho) hlink]
  constructor
  · rintro ⟨hspelt, hfits, hroom, rfl⟩
    exact ⟨⟨hspelt, hfits, hroom⟩, rfl⟩
  · rintro ⟨⟨hspelt, hfits, hroom⟩, rfl⟩
    exact ⟨hspelt, hfits, hroom, rfl⟩

/-- An output that can be written is opened in its place. -/
theorem fileAt?_of_writable (ho : o ∈ outputNames name)
    (hwritable : Writable t outputDir outputLoc o) :
    t.fileAt? (outputDir.join ⟨o⟩) = some (outputLoc ++ [o]) :=
  (hdirs.fileAt?_eq_some_iff hfile ho).2 ⟨hwritable, rfl⟩

/-- One that cannot is not opened at all. -/
theorem fileAt?_of_not_writable (ho : o ∈ outputNames name)
    (hwritable : ¬ Writable t outputDir outputLoc o) :
    t.fileAt? (outputDir.join ⟨o⟩) = none := by
  rw [Option.eq_none_iff_forall_ne_some]
  intro loc hloc
  exact hwritable ((hdirs.fileAt?_eq_some_iff hfile ho).1 hloc).1

/-- Where both outputs can be written, both are made, and the summary is given. -/
theorem settle_kept
    (hprinted : printed? d program t (inputDir.join ⟨Text.Utf8.encode name⟩) = some output)
    (hraw : Writable t outputDir outputLoc (rawName name))
    (hcapture : Writable t outputDir outputLoc (captureName name)) :
    settle d program inputDir outputDir t name
      = ([(outputLoc ++ [rawName name], output),
          (outputLoc ++ [captureName name], captureBytes output)],
        summary name (Listing.ofText (Text.Utf8.decodeLossy output))) := by
  have hopen : t.fileAt? (rawPath outputDir name) = some (outputLoc ++ [rawName name]) :=
    hdirs.fileAt?_of_writable hfile List.mem_cons_self hraw
  have hopen' : t.fileAt? (capturePath outputDir name)
      = some (outputLoc ++ [captureName name]) :=
    hdirs.fileAt?_of_writable hfile (List.mem_cons_of_mem _ List.mem_cons_self) hcapture
  rw [settle, hprinted, hopen, hopen']

/-- Where the capture cannot, the raw listing is made alone. -/
theorem settle_cut
    (hprinted : printed? d program t (inputDir.join ⟨Text.Utf8.encode name⟩) = some output)
    (hraw : Writable t outputDir outputLoc (rawName name))
    (hcapture : ¬ Writable t outputDir outputLoc (captureName name)) :
    settle d program inputDir outputDir t name = ([(outputLoc ++ [rawName name], output)], "") := by
  have hopen : t.fileAt? (rawPath outputDir name) = some (outputLoc ++ [rawName name]) :=
    hdirs.fileAt?_of_writable hfile List.mem_cons_self hraw
  have hopen' : t.fileAt? (capturePath outputDir name) = none :=
    hdirs.fileAt?_of_not_writable hfile (List.mem_cons_of_mem _ List.mem_cons_self) hcapture
  rw [settle, hprinted, hopen, hopen']

/-- Where nothing is printed, or the raw listing cannot be written, nothing is made. -/
theorem settle_failed
    (hfailed : printed? d program t (inputDir.join ⟨Text.Utf8.encode name⟩) = none
      ∨ ¬ Writable t outputDir outputLoc (rawName name)) :
    settle d program inputDir outputDir t name = ([], "") := by
  rw [settle]
  rcases hfailed with hprinted | hraw
  · rw [hprinted]
  · have hopen : t.fileAt? (rawPath outputDir name) = none :=
      hdirs.fileAt?_of_not_writable hfile List.mem_cons_self hraw
    rw [hopen]
    cases printed? d program t (inputDir.join ⟨Text.Utf8.encode name⟩) <;> rfl

/-- Files are made where the outputs are. -/
theorem sublist_outputLocs :
    ((settle d program inputDir outputDir t name).1.map (·.1)).Sublist
      (outputLocs outputLoc (Text.Utf8.encode name)) := by
  rw [outputLocs_encode]
  cases hprinted : printed? d program t (inputDir.join ⟨Text.Utf8.encode name⟩) with
  | none =>
      rw [hdirs.settle_failed hfile (Or.inl hprinted)]
      exact List.nil_sublist _
  | some output =>
      by_cases hraw : Writable t outputDir outputLoc (rawName name)
      · by_cases hcapture : Writable t outputDir outputLoc (captureName name)
        · rw [hdirs.settle_kept hfile hprinted hraw hcapture]
          exact List.Sublist.refl _
        · rw [hdirs.settle_cut hfile hprinted hraw hcapture]
          exact (List.nil_sublist _).cons_cons _
      · rw [hdirs.settle_failed hfile (Or.inr hraw)]
        exact List.nil_sublist _

end Directories

/-! ## All files -/

section All

variable {args : Arguments} {contents : List UInt8} {loc : Location}

/-- Everything that is made has room for it. -/
theorem hasRoom_of_mem_allSettled {w : Location × List UInt8}
    (hw : w ∈ allSettled d args t inputLoc) : t.HasRoom w.1 := by
  obtain ⟨n, -, hw⟩ := List.mem_flatMap.1 hw
  exact hasRoom_of_settleFile hw

variable (hdirs : Directories t (args.path 0) (args.path 1) inputLoc outputLoc)
include hdirs

/-- What is made of a file is made in the places of its outputs. -/
theorem sublist_settled (d : Disassembler) (hn : fileName ∈ t.fileNames inputLoc) :
    ((settled d args t fileName).1.map (·.1)).Sublist (outputLocs outputLoc fileName) := by
  obtain ⟨contents, hfile⟩ := (FileTree.mem_fileNames_iff hdirs.distinct).1 hn
  by_cases htext : ∃ name, Text.Utf8.encode name = fileName
  · obtain ⟨name, rfl⟩ := htext
    rw [settled, settleFile_encode]
    exact hdirs.sublist_outputLocs hfile
  · rw [settled, settleFile, Text.Utf8.decode_of_no_text htext]
    exact List.nil_sublist _

/-- No file is made twice. -/
theorem nodup_allSettled (d : Disassembler) :
    ((allSettled d args t inputLoc).map (·.1)).Nodup := by
  rw [allSettled, List.map_flatMap, List.nodup_flatMap]
  refine ⟨fun n hn => (sublist_settled hdirs d hn).nodup (nodup_outputLocs outputLoc n), ?_⟩
  have hnames := FileTree.ascending_fileNames hdirs.distinct inputLoc
  refine (List.Pairwise.and_mem.1 hnames).imp fun {a b} hab => ?_
  obtain ⟨ha, hb, hlt⟩ := hab
  intro loc hloc hloc'
  have heq : a = b := eq_of_mem_outputLocs ((sublist_settled hdirs d ha).subset hloc)
    ((sublist_settled hdirs d hb).subset hloc')
  exact List.lt_irrefl a (heq ▸ hlt)

/-- What is made for a file is there in the end. -/
theorem find?_of_mem_settled (hn : fileName ∈ t.fileNames inputLoc)
    (hmem : (loc, contents) ∈ (settled d args t fileName).1) :
    (t.putAll (allSettled d args t inputLoc)).find? loc = some (.file contents) :=
  FileTree.find?_putAll (fun _ hw => hasRoom_of_mem_allSettled hw)
    (nodup_allSettled hdirs d) (List.mem_flatMap.2 ⟨fileName, hn, hmem⟩)

/-- Outputs that are not made are what they were before. -/
theorem find?_of_not_settled (hn : fileName ∈ t.fileNames inputLoc)
    (hloc : loc ∈ outputLocs outputLoc fileName)
    (hnot : loc ∉ (settled d args t fileName).1.map (·.1)) :
    (t.putAll (allSettled d args t inputLoc)).find? loc = t.find? loc := by
  refine (FileTree.changedAt_putAll fun _ hw => hasRoom_of_mem_allSettled hw).elsewhere loc ?_
  rw [allSettled, List.map_flatMap, List.mem_flatMap]
  rintro ⟨n, hn', hmem⟩
  obtain rfl := eq_of_mem_outputLocs ((sublist_settled hdirs d hn').subset hmem) hloc
  exact hnot hmem

/-- Nothing but these places is changed. -/
theorem changedAt_allSettled (d : Disassembler) :
    t.ChangedAt (fun loc => ∃ n ∈ t.fileNames inputLoc, loc ∈ outputLocs outputLoc n)
      (t.putAll (allSettled d args t inputLoc)) := by
  refine (FileTree.changedAt_putAll fun _ hw => hasRoom_of_mem_allSettled hw).mono
    fun loc hloc => ?_
  rw [allSettled, List.map_flatMap, List.mem_flatMap] at hloc
  obtain ⟨n, hn, hmem⟩ := hloc
  exact ⟨n, hn, (sublist_settled hdirs d hn).subset hmem⟩

end All

/-- What becomes of a file, between the tree before the first file and the one behind the last.
    All of it is told by what the disassembler prints of this file and by the room for its
    outputs. -/
structure Outcome (d : Disassembler) (args : Arguments) (outputLoc : Location)
    (t t' : FileTree) (name text : String) : Prop where
  /-- The disassembler succeeds and there is room for both outputs. -/
  kept : ∀ output,
    printed? d (programOf args) t ((args.path 0).join ⟨Text.Utf8.encode name⟩) = some output →
    Writable t (args.path 1) outputLoc (rawName name) →
    Writable t (args.path 1) outputLoc (captureName name) →
    t'.nodeAt? (rawPath (args.path 1) name) = some (.file output)
    ∧ Legacy.stored (capturePath (args.path 1) name) t'
      = .ok (Listing.ofText (Text.Utf8.decodeLossy output)).starts
    ∧ text = summary name (Listing.ofText (Text.Utf8.decodeLossy output))
  /-- There is no room for the capture. -/
  cut : ∀ output,
    printed? d (programOf args) t ((args.path 0).join ⟨Text.Utf8.encode name⟩) = some output →
    Writable t (args.path 1) outputLoc (rawName name) →
    ¬ Writable t (args.path 1) outputLoc (captureName name) →
    t'.nodeAt? (rawPath (args.path 1) name) = some (.file output)
    ∧ t'.find? (outputLoc ++ [captureName name]) = t.find? (outputLoc ++ [captureName name])
    ∧ text = ""
  /-- The disassembler fails, or there is no room for what it prints. -/
  failed : printed? d (programOf args) t ((args.path 0).join ⟨Text.Utf8.encode name⟩) = none
      ∨ ¬ Writable t (args.path 1) outputLoc (rawName name) →
    (∀ o ∈ outputNames name, t'.find? (outputLoc ++ [o]) = t.find? (outputLoc ++ [o]))
    ∧ text = ""

/-- Every file has its outcome in the tree behind the last, as no other file has outputs in its
    places. -/
theorem outcome_of_file {args : Arguments}
    (hdirs : Directories t (args.path 0) (args.path 1) inputLoc outputLoc)
    (hn : Text.Utf8.encode name ∈ t.fileNames inputLoc) :
    Outcome d args outputLoc t (t.putAll (allSettled d args t inputLoc)) name
      (settled d args t (Text.Utf8.encode name)).2 := by
  obtain ⟨contents, hfile⟩ := (FileTree.mem_fileNames_iff hdirs.distinct).1 hn
  have hraw : rawName name ∈ outputNames name := List.mem_cons_self
  have hcapture : captureName name ∈ outputNames name := List.mem_cons_of_mem _ List.mem_cons_self
  have hsettled : settled d args t (Text.Utf8.encode name)
      = settle d (programOf args) (args.path 0) (args.path 1) t name := settleFile_encode ..
  have hopens := fileAt?_of_changedAt (changedAt_allSettled hdirs d)
  have hloc : ∀ o ∈ outputNames name,
      outputLoc ++ [o] ∈ outputLocs outputLoc (Text.Utf8.encode name) :=
    fun o ho => mem_outputLocs_iff.2 ⟨name, rfl, o, ho, rfl⟩
  -- an output that is made is what its path leads to
  have hthere : ∀ o bytes, o ∈ outputNames name → Writable t (args.path 1) outputLoc o →
      (outputLoc ++ [o], bytes) ∈ (settled d args t (Text.Utf8.encode name)).1 →
      (t.putAll (allSettled d args t inputLoc)).fileAt? ((args.path 1).join ⟨o⟩)
        = some (outputLoc ++ [o])
      ∧ (t.putAll (allSettled d args t inputLoc)).find? (outputLoc ++ [o])
        = some (.file bytes) := by
    intro o bytes ho hwritable hmem
    exact ⟨(hopens _).trans (hdirs.fileAt?_of_writable hfile ho hwritable),
      find?_of_mem_settled hdirs hn hmem⟩
  refine ⟨fun output hprinted hfits hfits' => ?_, fun output hprinted hfits hfits' => ?_,
    fun hfailed => ?_⟩
  · have hkept := hsettled.trans (hdirs.settle_kept hfile hprinted hfits hfits')
    obtain ⟨hopen, hfind⟩ := hthere _ output hraw hfits (by
      rw [hkept]
      exact List.mem_cons_self)
    obtain ⟨hopen', hfind'⟩ := hthere _ (captureBytes output) hcapture hfits' (by
      rw [hkept]
      exact List.mem_cons_of_mem _ List.mem_cons_self)
    refine ⟨FileTree.nodeAt?_of_fileAt? hopen hfind, ?_, congrArg Prod.snd hkept⟩
    have hstored := Legacy.stored_of_fileAt? hopen' hfind'
    rwa [OffsetSet.ofOffsets_keys] at hstored
  · have hcut := hsettled.trans (hdirs.settle_cut hfile hprinted hfits hfits')
    obtain ⟨hopen, hfind⟩ := hthere _ output hraw hfits (by
      rw [hcut]
      exact List.mem_cons_self)
    refine ⟨FileTree.nodeAt?_of_fileAt? hopen hfind, ?_, congrArg Prod.snd hcut⟩
    refine find?_of_not_settled hdirs hn (hloc _ hcapture) ?_
    rw [hcut]
    intro hmem
    have heq := List.append_cancel_left (List.mem_singleton.1 hmem)
    exact rawName_ne_captureName name name (List.cons.inj heq).1.symm
  · have hnothing := hsettled.trans (hdirs.settle_failed hfile hfailed)
    refine ⟨fun o ho => find?_of_not_settled hdirs hn (hloc o ho) ?_, congrArg Prod.snd hnothing⟩
    rw [hnothing]
    exact List.not_mem_nil

/-- **OUTCOMES**.  The files of a directory are treated in the order of their names.  What becomes
    of each, and what is shown of it, is told by the tree in front of the first (`Outcome`), and
    so by none of the others.  A file whose name is no text is left out.  Nothing changes but
    the outputs, which are called differently, and directories are made where nothing was. -/
theorem run_outcomes (d : Disassembler) (args : Arguments) (h h₀ : Host)
    (inputLoc outputLoc : Location) (hlooks : LooksAtInput d)
    (hmade : makeDirectories (args.path 1) h = .ok () h₀)
    (hdirs : Directories h₀.files (args.path 0) (args.path 1) inputLoc outputLoc) :
    ∃ (names : List (List UInt8)) (texts : List String) (t : FileTree) (events : List Log.Event),
      run d args h = .ok (String.join texts) ⟨t, events⟩
      ∧ names.Pairwise (· < ·)
      ∧ (∀ n, n ∈ names ↔ ∃ contents, h₀.files.find? (inputLoc ++ [n]) = some (.file contents))
      ∧ List.Forall₂ (fun n text =>
          (∀ name, Text.Utf8.encode name = n → Outcome d args outputLoc h₀.files t name text)
          ∧ ((¬ ∃ name, Text.Utf8.encode name = n) → text = "")) names texts
      ∧ h₀.files.ChangedAt (fun loc => ∃ name, Text.Utf8.encode name ∈ names
          ∧ ∃ o ∈ outputNames name, loc = outputLoc ++ [o]) t
      ∧ FileTree.Grown h.files h₀.files
      ∧ (∀ a b o, o ∈ outputNames a → o ∈ outputNames b → a = b)
      ∧ ∀ a, (outputNames a).Nodup := by
  have hplain : ∀ n ∈ h₀.files.fileNames inputLoc, Plain h₀.files (args.path 1) n := by
    intro n hn name hname
    obtain ⟨contents, hfile⟩ := (FileTree.mem_fileNames_iff hdirs.distinct).1 hn
    subst hname
    exact hdirs.plain_of_file hfile name rfl
  -- no output is made in the input directory, so every file is read as it was at first
  have hapart : ∀ n ∈ h₀.files.fileNames inputLoc, ∀ w ∈ (settled d args h₀.files n).1,
      ∀ m, w.1 ≠ inputLoc ++ [m] := by
    intro n hn w hw m heq
    have hmem := (sublist_settled hdirs d hn).subset (List.mem_map.2 ⟨w, hw, rfl⟩)
    obtain ⟨name, -, o, -, hloc⟩ := mem_outputLocs_iff.1 hmem
    exact hdirs.apart (List.append_inj' (heq.symm.trans hloc) rfl).1
  obtain ⟨events, hrun⟩ :=
    run_eq hlooks hmade hdirs.input hdirs.distinct hdirs.named hplain hapart
  refine ⟨_, _, _, events, hrun, FileTree.ascending_fileNames hdirs.distinct inputLoc,
    fun n => FileTree.mem_fileNames_iff hdirs.distinct, ?_, ?_, grown_of_makeDirectories hmade,
    fun a b o => eq_of_mem_outputNames, nodup_outputNames⟩
  · refine List.forall₂_map_right_iff.2 (List.forall₂_same.2 fun n hn => ⟨?_, fun htext => ?_⟩)
    · rintro name rfl
      exact outcome_of_file hdirs hn
    · rw [settled, settleFile, Text.Utf8.decode_of_no_text htext]
  · refine (changedAt_allSettled hdirs d).mono fun loc hloc => ?_
    obtain ⟨n, hn, hmem⟩ := hloc
    obtain ⟨name, rfl, o, ho, rfl⟩ := mem_outputLocs_iff.1 hmem
    exact ⟨name, hn, o, ho, rfl⟩

/-! ## A file that is disassembled and one that is not -/

/-- A listing with one instruction. -/
def nopLine : List UInt8 := Text.Utf8.encode "1:\t90\tnop\n"

/-- A program that prints the file that it is given, and fails on an empty one. -/
def prints : Disassembler := fun t _ p =>
  match t.nodeAt? p with
  | some (.file []) => .ok ⟨[], Text.Utf8.encode "empty", 1⟩
  | some (.file bytes) => .ok ⟨bytes, [], 0⟩
  | _ => .error .missing

/-- In `i` the listing `a` and the empty file `b`; nothing in `o`. -/
def twoFiles : FileTree :=
  ⟨[([[105]], .directory), ([[111]], .directory),
    ([[105], [97]], .file nopLine), ([[105], [98]], .file [])], []⟩

theorem distinct_twoFiles : twoFiles.Distinct := by
  show (twoFiles.nodes.map (·.1)).Nodup
  decide +kernel

/-- The two files are all that the input directory has. -/
theorem find?_twoFiles_eq_some_iff {n : List UInt8} {node : Node} :
    twoFiles.find? ([[105]] ++ [n]) = some node
      ↔ n = [97] ∧ node = .file nopLine ∨ n = [98] ∧ node = .file [] := by
  rw [FileTree.find?_eq_some_iff distinct_twoFiles (by simp)]
  simp [twoFiles]

/-- The two directories are apart, and nothing stands in the way of the outputs. -/
theorem directories_twoFiles : Directories twoFiles ⟨[105]⟩ ⟨[111]⟩ [[105]] [[111]] where
  distinct := distinct_twoFiles
  input := locate_name rfl rfl rfl (by decide) rfl
  output := locate_name rfl rfl rfl (by decide) rfl
  apart := by decide
  named name node hfind := by
    rcases find?_twoFiles_eq_some_iff.1 hfind with ⟨rfl, -⟩ | ⟨rfl, -⟩
    · exact ⟨⟨by decide, rfl⟩, by decide⟩
    · exact ⟨⟨by decide, rfl⟩, by decide⟩
  plain name contents _ o _ node hfind := by
    have hmem := (FileTree.find?_eq_some_iff distinct_twoFiles (by simp)).1 hfind
    simp [twoFiles] at hmem

theorem makeDirectories_twoFiles :
    makeDirectories ⟨[111]⟩ ⟨twoFiles, []⟩ = .ok () ⟨twoFiles, []⟩ :=
  makeDirectories_name rfl rfl rfl (by decide) rfl

/-- The program looks at no file but the one that it is given. -/
theorem looksAtInput_prints : LooksAtInput prints := by
  intro t t' program p hsame
  rw [prints, prints, hsame]

/-- The listing is kept and its capture has the one instruction; of the empty file there is no
    more than a report. -/
theorem run_outcomes_twoFiles :
    LooksAtInput prints
    ∧ makeDirectories ⟨[111]⟩ ⟨twoFiles, []⟩ = .ok () ⟨twoFiles, []⟩
    ∧ Directories twoFiles ⟨[105]⟩ ⟨[111]⟩ [[105]] [[111]]
    ∧ ∃ (t : FileTree) (events : List Log.Event),
      run prints ⟨["i", "o"], []⟩ ⟨twoFiles, []⟩
        = .ok "a: 1 instructions, 0 undecodable\n" ⟨t, events⟩
      ∧ t.nodeAt? (rawPath ⟨[111]⟩ "a") = some (.file nopLine)
      ∧ Legacy.stored (capturePath ⟨[111]⟩ "a") t = .ok (.ofOffsets [1])
      ∧ ∀ o ∈ outputNames "b", t.find? [[111], o] = none := by
  refine ⟨looksAtInput_prints, makeDirectories_twoFiles, directories_twoFiles, ?_⟩
  obtain ⟨names, texts, t, events, hrun, hascending, hmem, houtcomes, -⟩ :=
    run_outcomes prints ⟨["i", "o"], []⟩ ⟨twoFiles, []⟩ ⟨twoFiles, []⟩ [[105]] [[111]]
      looksAtInput_prints makeDirectories_twoFiles directories_twoFiles
  have hnames : names = [Text.Utf8.encode "a", Text.Utf8.encode "b"] := by
    refine Path.eq_of_ascending hascending (by decide) fun n => ?_
    rw [hmem, List.mem_pair]
    constructor
    · rintro ⟨contents, hfile⟩
      exact (find?_twoFiles_eq_some_iff.1 hfile).imp And.left And.left
    · rintro (rfl | rfl)
      · exact ⟨nopLine, find?_twoFiles_eq_some_iff.2 (Or.inl ⟨rfl, rfl⟩)⟩
      · exact ⟨[], find?_twoFiles_eq_some_iff.2 (Or.inr ⟨rfl, rfl⟩)⟩
  rw [hnames] at houtcomes
  obtain ⟨a, rest, ⟨ha, -⟩, hrest, rfl⟩ := List.forall₂_cons_left_iff.1 houtcomes
  obtain ⟨b, rest, ⟨hb, -⟩, hnil, rfl⟩ := List.forall₂_cons_left_iff.1 hrest
  obtain rfl := List.forall₂_nil_left_iff.1 hnil
  have hwritable : ∀ o ∈ outputNames "a", Writable twoFiles ⟨[111]⟩ [[111]] o := by
    have hroom : ∀ o ∈ outputNames "a", ((⟨[111]⟩ : Path).join ⟨o⟩).fault? = none
        ∧ o.length ≤ Walk.maxName ∧ twoFiles.find? ([[111]] ++ [o]) = none := by decide +kernel
    intro o ho
    obtain ⟨hspelt, hfits, hnone⟩ := hroom o ho
    exact ⟨hspelt, hfits, Or.inl hnone⟩
  have hnode : ∀ b contents, b = 97 ∨ b = 98 →
      twoFiles.find? [[105], [b]] = some (.file contents) →
      twoFiles.nodeAt? ((⟨[105]⟩ : Path).join ⟨[b]⟩) = some (.file contents) := by
    intro b contents hb hfile
    have hfault : ((⟨[105]⟩ : Path).join ⟨[b]⟩).fault? = none := by
      rcases hb with rfl | rfl <;> rfl
    exact nodeAt?_of_fileAt? (fileAt?_join_of_file directories_twoFiles.input
      directories_twoFiles.named hfile hfault) hfile
  have hprinted : printed? prints "objdump" twoFiles ((⟨[105]⟩ : Path).join ⟨[97]⟩)
      = some nopLine := by
    rw [printed?, prints, hnode 97 nopLine (Or.inl rfl) (by decide +kernel)]
    rfl
  have hfailed : printed? prints "objdump" twoFiles ((⟨[105]⟩ : Path).join ⟨[98]⟩) = none := by
    rw [printed?, prints, hnode 98 [] (Or.inr rfl) (by decide +kernel)]
    rfl
  obtain ⟨hraw, hcapture, htext⟩ := (ha "a" rfl).kept nopLine hprinted
    (hwritable _ List.mem_cons_self) (hwritable _ (List.mem_cons_of_mem _ List.mem_cons_self))
  obtain ⟨hsame, htext'⟩ := (hb "b" rfl).failed (Or.inl hfailed)
  have hlisting : Listing.ofText (Text.Utf8.decodeLossy nopLine) = ⟨.ofOffsets [1], 0⟩ := by
    decide +kernel
  have hshown : String.join [a, b] = "a: 1 instructions, 0 undecodable\n" := by
    rw [htext, htext', hlisting]
    decide +kernel
  rw [hlisting] at hcapture
  refine ⟨t, events, hshown ▸ hrun, hraw, hcapture, fun o ho => (hsame o ho).trans ?_⟩
  have hnone : ∀ o ∈ outputNames "b", twoFiles.find? [[111], o] = none := by decide +kernel
  exact hnone o ho

/-! ## Files that are left out -/

/-- A program that prints the same of every file. -/
def printsNop : Disassembler := fun _ _ _ => .ok ⟨nopLine, [], 0⟩

/-- A name that has no room for an ending. -/
def longName : String := String.ofList (List.replicate 240 'a')

/-- In `i` three files.  In `o` a directory stands where the capture of the second is to be, and
    a link to the other output where that of the third is to be. -/
def crowded : FileTree :=
  ⟨[([[105]], .directory), ([[111]], .directory),
    ([[105], Text.Utf8.encode longName], .file [120]), ([[105], [98]], .file [120]),
    ([[105], [99]], .file [120]), ([[111], captureName "b"], .directory),
    ([[111], captureName "c"], .link ⟨rawName "c"⟩)], []⟩

theorem distinct_crowded : crowded.Distinct := by
  show (crowded.nodes.map (·.1)).Nodup
  decide +kernel

theorem locate_crowded {b : UInt8} (hb : b = 105 ∨ b = 111) :
    crowded.locate ⟨[b]⟩ = .ok ([[b]], .directory) := by
  rcases hb with rfl | rfl
  · exact locate_name rfl rfl rfl (by decide) rfl
  · exact locate_name rfl rfl rfl (by decide) rfl

/-- The names of the three files. -/
def crowdedNames : List (List UInt8) := [Text.Utf8.encode longName, [98], [99]]

/-- The three files are all that the input directory has. -/
theorem find?_crowded_iff {n : List UInt8} {node : Node} :
    crowded.find? ([[105]] ++ [n]) = some node ↔ n ∈ crowdedNames ∧ node = .file [120] := by
  rw [FileTree.find?_eq_some_iff distinct_crowded (by simp)]
  simp [crowded, crowdedNames, or_and_right]

theorem fileNames_crowded : crowded.fileNames [[105]] = crowdedNames := by
  refine Path.eq_of_ascending (ascending_fileNames distinct_crowded _) (by decide +kernel)
    fun n => ?_
  rw [mem_fileNames_iff distinct_crowded]
  constructor
  · rintro ⟨contents, hfile⟩
    exact (find?_crowded_iff.1 hfile).1
  · intro hn
    exact ⟨_, find?_crowded_iff.2 ⟨hn, rfl⟩⟩

theorem isName_crowded {n : List UInt8} (hn : n ∈ crowdedNames) :
    Path.IsName n ∧ n.length ≤ Walk.maxName := by
  have hall : ∀ n ∈ crowdedNames, Path.slash ∉ n ∧ Path.step? n = some (.name n)
      ∧ n.length ≤ Walk.maxName := by decide +kernel
  obtain ⟨hslash, hstep, hfits⟩ := hall n hn
  exact ⟨⟨hslash, hstep⟩, hfits⟩

/-- An output that is no link is opened in its own place, where it can be. -/
theorem fileAt?_crowded {name : String} {o : List UInt8} {loc : Location}
    (hname : Text.Utf8.encode name ∈ crowdedNames) (ho : o ∈ outputNames name)
    (hlink : ∀ target, crowded.find? ([[111]] ++ [o]) ≠ some (.link target)) :
    crowded.fileAt? ((⟨[111]⟩ : Path).join ⟨o⟩) = some loc
      ↔ ((⟨[111]⟩ : Path).join ⟨o⟩).fault? = none ∧ o.length ≤ Walk.maxName
        ∧ crowded.HasRoom ([[111]] ++ [o]) ∧ loc = [[111]] ++ [o] :=
  fileAt?_join_eq_some_iff (locate_crowded (Or.inr rfl))
    (isName_of_mem_outputNames (isName_crowded hname).1 ho) hlink

/-- The other output is where the link to it leads. -/
theorem capturePath_crowded :
    crowded.fileAt? (capturePath ⟨[111]⟩ "c") = some ([[111]] ++ [rawName "c"]) := by
  have hspelt : (capturePath ⟨[111]⟩ "c").fault? = none
      ∧ (capturePath ⟨[111]⟩ "c").steps = [.name [111], .name (captureName "c")]
      ∧ Path.steps ⟨rawName "c"⟩ = [.name (rawName "c")]
      ∧ (captureName "c").length ≤ Walk.maxName ∧ (rawName "c").length ≤ Walk.maxName
      ∧ crowded.find? ([[111]] ++ [captureName "c"]) = some (.link ⟨rawName "c"⟩)
      ∧ crowded.find? ([[111]] ++ [rawName "c"]) = none := by decide +kernel
  obtain ⟨hfault, hsteps, htarget, hfits, hfits', hlink, hnone⟩ := hspelt
  refine FileTree.fileAt?_eq_some_iff.2 ⟨hfault, .absent [[111]] (rawName "c"), ?_, rfl⟩
  rw [hsteps]
  refine .enter (by simp) (by decide) rfl nofun (.follow (by simp) hfits hlink (by simp) ?_)
  rw [htarget]
  exact .absent hfits' hnone

/-- What is made for the three files: nothing; what is printed alone; and twice the same file. -/
theorem settled_crowded :
    settled printsNop ⟨["i", "o"], []⟩ crowded (Text.Utf8.encode longName) = ([], "")
    ∧ settled printsNop ⟨["i", "o"], []⟩ crowded [98] = ([([[111], rawName "b"], nopLine)], "")
    ∧ settled printsNop ⟨["i", "o"], []⟩ crowded [99]
      = ([([[111], rawName "c"], nopLine), ([[111], rawName "c"], captureBytes nopLine)],
        "c: 1 instructions, 0 undecodable\n") := by
  have hprinted : ∀ name, printed? printsNop "objdump" crowded
      ((⟨[105]⟩ : Path).join ⟨Text.Utf8.encode name⟩) = some nopLine := fun _ => rfl
  have hsettled : ∀ name, settled printsNop ⟨["i", "o"], []⟩ crowded (Text.Utf8.encode name)
      = settle printsNop "objdump" ⟨[105]⟩ ⟨[111]⟩ crowded name := settleFile_encode _ _ _ _ _
  have hraw : ∀ name ∈ ["b", "c"],
      crowded.fileAt? (rawPath ⟨[111]⟩ name) = some ([[111]] ++ [rawName name]) := by
    have hfits : ∀ name ∈ ["b", "c"], Text.Utf8.encode name ∈ crowdedNames
        ∧ ((⟨[111]⟩ : Path).join ⟨rawName name⟩).fault? = none
        ∧ (rawName name).length ≤ Walk.maxName
        ∧ crowded.find? ([[111]] ++ [rawName name]) = none := by decide +kernel
    intro name hname
    obtain ⟨hmem, hfault, hlen, hnone⟩ := hfits name hname
    refine (fileAt?_crowded hmem List.mem_cons_self fun target hlink => ?_).2
      ⟨hfault, hlen, Or.inl hnone, rfl⟩
    exact nomatch hlink.symm.trans hnone
  refine ⟨?_, ?_, ?_⟩
  · -- the name with its ending is one byte too long
    have hlong : Walk.maxName < (rawName longName).length
        ∧ crowded.find? ([[111]] ++ [rawName longName]) = none := by decide +kernel
    have hnone : crowded.fileAt? (rawPath ⟨[111]⟩ longName) = none := by
      rw [Option.eq_none_iff_forall_ne_some]
      intro loc hloc
      have hopen := (fileAt?_crowded List.mem_cons_self List.mem_cons_self
        fun target hlink => nomatch hlink.symm.trans hlong.2).1 hloc
      exact absurd hopen.2.1 (Nat.not_le.2 hlong.1)
    rw [hsettled, settle, hprinted, hnone]
  · -- a directory is not written to
    have hdir : crowded.find? ([[111]] ++ [captureName "b"]) = some .directory := by
      decide +kernel
    have hnone : crowded.fileAt? (capturePath ⟨[111]⟩ "b") = none := by
      rw [Option.eq_none_iff_forall_ne_some]
      intro loc hloc
      have hopen := (fileAt?_crowded (by decide +kernel)
        (List.mem_cons_of_mem _ List.mem_cons_self)
        fun target hlink => nomatch hlink.symm.trans hdir).1 hloc
      rcases hopen.2.2.1 with hnone | ⟨contents, hfile⟩
      · exact nomatch hnone.symm.trans hdir
      · exact nomatch hfile.symm.trans hdir
    refine (hsettled "b").trans ?_
    rw [settle, hprinted, hraw "b" (by simp), hnone]
    rfl
  · have hline : summary "c" (Listing.ofText (Text.Utf8.decodeLossy nopLine))
        = "c: 1 instructions, 0 undecodable\n" := by decide +kernel
    refine (hsettled "c").trans ?_
    rw [settle, hprinted, hraw "c" (by simp), capturePath_crowded]
    exact congrArg (Prod.mk _) hline

/-- No output opens a device: the link leads to a file. -/
theorem plain_crowded {n : List UInt8} (hn : n ∈ crowdedNames) : Plain crowded ⟨[111]⟩ n := by
  rintro name rfl
  have hname : name ∈ [longName, "b", "c"] := by
    have hmem : Text.Utf8.encode name ∈ [longName, "b", "c"].map Text.Utf8.encode := hn
    rwa [List.mem_map_of_injective Text.Utf8.encode_injective] at hmem
  -- one output alone is a link
  have hfree : ∀ name ∈ [longName, "b", "c"], ∀ o ∈ outputNames name, o = captureName "c"
      ∨ crowded.find? ([[111]] ++ [o]) = none
      ∨ crowded.find? ([[111]] ++ [o]) = some .directory := by decide +kernel
  have hdevice : ∀ o ∈ outputNames name, NoDevice crowded ((⟨[111]⟩ : Path).join ⟨o⟩) := by
    intro o ho
    rcases hfree name hname o ho with rfl | hfind
    · intro target htarget
      have hopen := FileTree.targetAt?_eq_file_iff.2 capturePath_crowded
      exact ⟨_, Option.some.inj (htarget.symm.trans hopen)⟩
    · refine noDevice_join (locate_crowded (Or.inr rfl))
        (isName_of_mem_outputNames (isName_crowded hn).1 ho) fun node hnode => ?_
      rcases hfind with hnone | hdir
      · exact nomatch hnode.symm.trans hnone
      · exact Or.inl (Option.some.inj (hnode.symm.trans hdir))
  exact ⟨hdevice _ List.mem_cons_self, hdevice _ (List.mem_cons_of_mem _ List.mem_cons_self)⟩

/-- The disassembler succeeds on three files.  Of one there is no output, of one no capture, and
    what is printed of the third is written over by the capture. -/
theorem run_leaves_out :
    LooksAtInput printsNop
    ∧ (∀ name ∈ [longName, "b", "c"],
      crowded.find? [[105], Text.Utf8.encode name] = some (.file [120])
      ∧ printed? printsNop "objdump" crowded ((⟨[105]⟩ : Path).join ⟨Text.Utf8.encode name⟩)
        = some nopLine)
    ∧ ∃ (t : FileTree) (events : List Log.Event),
      run printsNop ⟨["i", "o"], []⟩ ⟨crowded, []⟩
        = .ok "c: 1 instructions, 0 undecodable\n" ⟨t, events⟩
      ∧ (∀ o ∈ outputNames longName, t.find? [[111], o] = none)
      ∧ t.find? [[111], captureName "b"] = some .directory
      ∧ t.find? [[111], rawName "c"] = some (.file (captureBytes nopLine))
      ∧ captureBytes nopLine ≠ nopLine := by
  have hlooks : LooksAtInput printsNop := fun _ _ _ _ _ => rfl
  refine ⟨hlooks, fun name hname => ⟨find?_crowded_iff.2 ⟨?_, rfl⟩, rfl⟩, ?_⟩
  · exact List.mem_map_of_mem (f := Text.Utf8.encode) hname
  obtain ⟨hlong, hb, hc⟩ := settled_crowded
  have hmade : makeDirectories (Arguments.path ⟨["i", "o"], []⟩ 1) ⟨crowded, []⟩
      = .ok () ⟨crowded, []⟩ :=
    makeDirectories_name (n := [111]) rfl rfl rfl (by decide) rfl
  have hinput : crowded.locate (Arguments.path ⟨["i", "o"], []⟩ 0)
      = .ok ([[105]], .directory) :=
    locate_crowded (Or.inl rfl)
  have hnamed : crowded.Named [[105]] := by
    intro n node hfind
    exact isName_crowded (find?_crowded_iff.1 hfind).1
  have hall : allSettled printsNop ⟨["i", "o"], []⟩ crowded [[105]]
      = [([[111], rawName "b"], nopLine), ([[111], rawName "c"], nopLine),
        ([[111], rawName "c"], captureBytes nopLine)] := by
    rw [allSettled, fileNames_crowded, crowdedNames]
    simp only [List.flatMap_cons, List.flatMap_nil, hlong, hb, hc]
    rfl
  -- of the three files, only the last has a line to show
  have htexts : String.join (crowdedNames.map fun n =>
      (settled printsNop ⟨["i", "o"], []⟩ crowded n).2) = "c: 1 instructions, 0 undecodable\n" := by
    rw [crowdedNames]
    simp only [List.map_cons, List.map_nil, hlong, hb, hc]
    rfl
  have hapart : ∀ n ∈ crowded.fileNames [[105]],
      ∀ w ∈ (settled printsNop ⟨["i", "o"], []⟩ crowded n).1, ∀ m, w.1 ≠ [[105]] ++ [m] := by
    intro n hn w hw m heq
    have hmem : w ∈ allSettled printsNop ⟨["i", "o"], []⟩ crowded [[105]] :=
      List.mem_flatMap.2 ⟨n, hn, hw⟩
    have hfirst : ∀ w ∈ allSettled printsNop ⟨["i", "o"], []⟩ crowded [[105]],
        w.1.head? = some [111] := by
      rw [hall]
      decide +kernel
    have hhead := hfirst w hmem
    rw [heq] at hhead
    exact absurd hhead (by simp)
  have hplain : ∀ n ∈ crowded.fileNames [[105]],
      Plain crowded (Arguments.path ⟨["i", "o"], []⟩ 1) n :=
    fun n hn => plain_crowded (fileNames_crowded ▸ hn)
  obtain ⟨events, hrun⟩ := run_eq hlooks hmade hinput distinct_crowded hnamed hplain hapart
  dsimp only at hrun
  rw [fileNames_crowded, htexts, hall] at hrun
  refine ⟨_, events, hrun, ?_⟩
  decide +kernel

end ExecTruth.Tool.Disassemble
