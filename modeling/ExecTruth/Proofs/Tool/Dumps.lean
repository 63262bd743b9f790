import ExecTruth.Proofs.Capture.Merges
import ExecTruth.Proofs.Files.Directories
import ExecTruth.Proofs.Scoring.DetailLists
import ExecTruth.Proofs.Scoring.Spans
import ExecTruth.Tool.Dump
import Mathlib.Algebra.Group.Int.Defs
import Mathlib.Algebra.Group.Nat.Defs

/-! # Dumps — what is shown of the instructions of a capture

    Offset and length of an instruction are whatever the capture says.  The place of the offset
    in the image and the end are found in words, and each step on the way fails where the
    numbers leave the image (`bytesIn?_eq_some_iff`).  So bytes are shown of the instructions
    that lie in the image as a whole, and of these all bytes and no others, which can be read
    off their line again (`bytesOfHex?_hexBytes`).

    Every instruction has its line, whether it lies in the image or not (`run_lines`). -/

namespace ExecTruth

open Job

namespace Text

/-! ## Hexadecimal bytes read back -/

/-- The bytes that hexadecimal digits spell, two digits for each byte. -/
def bytesOfHex? : List Char → Option (List UInt8)
  | [] => some []
  | [_] => none
  | high :: low :: rest =>
      (digit? 16 high).bind fun h => (digit? 16 low).bind fun l =>
        (bytesOfHex? rest).map (UInt8.ofNat (16 * h + l) :: ·)

theorem digit?_hexDigitChar : ∀ n < 16, digit? 16 (hexDigitChar n) = some n := by decide

/-- Bytes in hexadecimal are read back as these bytes. -/
theorem bytesOfHex?_hexBytes (bytes : List UInt8) :
    bytesOfHex? (hexBytes bytes).toList = some bytes := by
  rw [hexBytes, String.toList_ofList]
  induction bytes with
  | nil => rfl
  | cons b rest ih =>
      have hb : b.toNat < 256 := b.toNat_lt
      -- the two digits of a byte are its quotient and its rest
      have hwhole : UInt8.ofNat (16 * (b.toNat / 16) + b.toNat % 16) = b := by
        rw [Nat.div_add_mod, UInt8.ofNat_toNat]
      rw [List.flatMap_cons, List.cons_append, List.cons_append, List.nil_append, bytesOfHex?,
        digit?_hexDigitChar _ (by omega), digit?_hexDigitChar _ (by omega), ih]
      dsimp only [Option.bind_some, Option.map_some]
      rw [hwhole]

/-- There is no line feed among hexadecimal digits. -/
theorem lineFeed_notMem_hexBytes (bytes : List UInt8) :
    lineFeed ∉ Utf8.encode (hexBytes bytes) := by
  have hdigit : ∀ d < 16, lineFeed ∉ String.utf8EncodeChar (hexDigitChar d) := by decide
  rw [hexBytes, Utf8.encode_ofList, List.mem_flatMap]
  rintro ⟨c, hc, hmem⟩
  obtain ⟨b, -, hc⟩ := List.mem_flatMap.1 hc
  have hb : b.toNat < 256 := b.toNat_lt
  rcases List.mem_cons.1 hc with rfl | hc
  · exact hdigit _ (by omega) hmem
  · rw [List.mem_singleton.1 hc] at hmem
    exact hdigit _ (by omega) hmem

end Text

/-- The sum of offsets as a word, modulo 2 ^ 64. -/
theorem Word.toNat_add (a b : Int64) :
    ((a + b).toUInt64.toNat : Int) = (a.toInt + b.toInt) % 2 ^ 64 := by
  have hmod : ∀ n : Int, n.bmod (2 ^ 64) % 2 ^ 64 = n % 2 ^ 64 := fun _ => Int.bmod_emod
  have hword : ((a + b).toUInt64.toNat : Int) = (a + b).toInt % 2 ^ 64 := by
    have hlt : (a + b).toBitVec.toNat < 2 ^ 64 := (a + b).toBitVec.isLt
    show ((a + b).toBitVec.toNat : Int) = (a + b).toBitVec.toInt % 2 ^ 64
    rw [BitVec.toInt_eq_toNat_bmod, hmod]
    omega
  rw [hword, Int64.toInt_add, hmod]

namespace Tool.Dump

variable {image : List UInt8} {base : Int64} {i : Instruction} {bytes : List UInt8}

/-! ## The bytes of an instruction -/

/-- The instruction lies in the image as a whole. -/
def Inside (image : List UInt8) (i : Instruction) : Prop :=
  0 ≤ i.offset.toInt ∧ i.stop ≤ image.length

instance (image : List UInt8) (i : Instruction) : Decidable (Inside image i) :=
  inferInstanceAs (Decidable (_ ∧ _))

/-- As many bytes of the image as the instruction has, from its offset on. -/
def bytesAt (image : List UInt8) (i : Instruction) : List UInt8 :=
  (image.drop i.offset.toInt.toNat).take i.length.toNat

/-- A slice is there exactly where it is inside the image, and is cut out of it. -/
theorem slice?_eq_some_iff {start stop : UInt64} : slice? image.toArray start stop = some bytes
    ↔ start.toNat ≤ stop.toNat ∧ stop.toNat ≤ image.length
      ∧ bytes = (image.drop start.toNat).take (stop.toNat - start.toNat) := by
  have hextract : (image.toArray.extract start.toNat stop.toNat).toList
      = (image.drop start.toNat).take (stop.toNat - start.toNat) := by
    simp [List.extract_eq_take_drop]
  rw [slice?, hextract, List.size_toArray]
  constructor
  · intro h
    split at h
    · next hin => exact ⟨UInt64.le_iff_toNat_le.1 hin.1, hin.2, (Option.some.inj h).symm⟩
    · cases h
  · rintro ⟨hle, hstop, rfl⟩
    exact if_pos ⟨UInt64.le_iff_toNat_le.2 hle, hstop⟩

/-- The bytes of an instruction are found exactly if it lies in the image. -/
theorem bytesIn?_eq_some_iff :
    bytesIn? image.toArray i = some bytes ↔ Inside image i ∧ bytes = bytesAt image i := by
  have hlength : i.length.toUInt64.toNat = i.length.toNat := by simp
  rw [bytesIn?, Option.bind_eq_some_iff, Inside, Instruction.stop, bytesAt]
  constructor
  · rintro ⟨start, hstart, hbytes⟩
    obtain ⟨stop, hstop, hslice⟩ := Option.bind_eq_some_iff.1 hbytes
    rw [Word.wordOfOffset?_eq_some_iff] at hstart
    rw [Word.checkedSum_eq_some_iff, hlength] at hstop
    obtain ⟨-, hin, rfl⟩ := slice?_eq_some_iff.1 hslice
    have hwidth : stop.toNat - start.toNat = i.length.toNat := by omega
    have hplace : i.offset.toInt.toNat = start.toNat := by omega
    rw [hwidth, hplace]
    exact ⟨⟨by omega, by omega⟩, rfl⟩
  · rintro ⟨⟨hnonneg, hend⟩, rfl⟩
    have hhigh : i.offset.toInt < 2 ^ 63 := Int64.toInt_lt i.offset
    have hshort : i.length.toNat < 256 := i.length.toNat_lt
    -- neither the place nor the end leaves the range of a word
    obtain ⟨start, hstart⟩ : ∃ start : UInt64, (start.toNat : Int) = i.offset.toInt :=
      ⟨i.offset.toUInt64, Word.toNat_toUInt64 (Int64.le_iff_toInt_le.2 hnonneg)⟩
    obtain ⟨stop, hstop⟩ : ∃ stop : UInt64,
        stop.toNat = start.toNat + i.length.toUInt64.toNat :=
      ⟨(start.toNat + i.length.toNat).toUInt64, by
        rw [hlength]
        exact Nat.mod_eq_of_lt (by omega)⟩
    refine ⟨start, Word.wordOfOffset?_eq_some_iff.2 hstart, ?_⟩
    refine Option.bind_eq_some_iff.2 ⟨stop, Word.checkedSum_eq_some_iff.2 hstop, ?_⟩
    rw [hlength] at hstop
    have hwidth : stop.toNat - start.toNat = i.length.toNat := by omega
    have hplace : i.offset.toInt.toNat = start.toNat := by omega
    rw [slice?_eq_some_iff, hwidth, hplace]
    exact ⟨by omega, by omega, rfl⟩

/-! ## The lines -/

/-- What a line shows: an address, and the text behind it. -/
structure Shown where
  address : Nat
  text : String

/-- The line without its end. -/
def Shown.line (s : Shown) : String := "0x" ++ Text.hexDigits s.address ++ ": " ++ s.text

/-- The line of an instruction shows the address it is loaded at.  The bytes of the image that
    it has can be read off the line exactly if it lies in there. -/
structure Shows (base : Int64) (image : List UInt8) (i : Instruction) (s : Shown) : Prop where
  address : (s.address : Int) = (i.offset.toInt + base.toInt) % 2 ^ 64
  bytes : ∀ bytes, Text.bytesOfHex? s.text.toList = some bytes
    ↔ Inside image i ∧ bytes = bytesAt image i
  inside : Inside image i → s.text = Text.hexBytes (bytesAt image i)
  outside : ¬ Inside image i ↔ s.text = "<outside of binary>"

/-- The text for the bytes of an instruction, if there are any. -/
def textOf : Option (List UInt8) → String
  | some bytes => Text.hexBytes bytes
  | none => "<outside of binary>"

/-- The shown bytes are read back, and the text for none is no bytes. -/
theorem bytesOfHex?_textOf (found : Option (List UInt8)) :
    Text.bytesOfHex? (textOf found).toList = found := by
  cases found with
  | none => decide
  | some bytes => exact Text.bytesOfHex?_hexBytes bytes

/-- Only what is outside is said to be. -/
theorem textOf_eq_outside_iff {found : Option (List UInt8)} :
    textOf found = "<outside of binary>" ↔ found = none := by
  constructor
  · intro h
    rw [← bytesOfHex?_textOf found, h]
    decide
  · rintro rfl
    rfl

/-- What the line of an instruction shows. -/
def shown (base : Int64) (image : List UInt8) (i : Instruction) : Shown :=
  ⟨(i.offset + base).toUInt64.toNat, textOf (bytesIn? image.toArray i)⟩

/-- The line of an instruction is the one that shows what was found. -/
theorem line_eq (base : Int64) (image : List UInt8) (i : Instruction) :
    line base image.toArray i = (shown base image i).line := by
  rw [line, shown, Shown.line, Word.hexOffset, Text.hexWord]
  cases bytesIn? image.toArray i <;> rfl

/-- What is shown of an instruction is true of the image. -/
theorem shows_shown (base : Int64) (image : List UInt8) (i : Instruction) :
    Shows base image i (shown base image i) where
  address := Word.toNat_add i.offset base
  bytes bytes := by rw [shown, bytesOfHex?_textOf, bytesIn?_eq_some_iff]
  inside h := by rw [shown, bytesIn?_eq_some_iff.2 ⟨h, rfl⟩, textOf]
  outside := by
    rw [shown, textOf_eq_outside_iff, Option.eq_none_iff_forall_ne_some]
    constructor
    · intro h bytes hbytes
      exact h (bytesIn?_eq_some_iff.1 hbytes).1
    · intro h hin
      exact h _ (bytesIn?_eq_some_iff.2 ⟨hin, rfl⟩)

/-- Nothing else is told by a line. -/
theorem Shows.eq_shown {s : Shown} (h : Shows base image i s) : s = shown base image i := by
  have h' := shows_shown base image i
  have haddress : s.address = (shown base image i).address :=
    Int.natCast_inj.1 (h.address.trans h'.address.symm)
  have htext : s.text = (shown base image i).text := by
    by_cases hin : Inside image i
    · rw [h.inside hin, h'.inside hin]
    · rw [h.outside.1 hin, h'.outside.1 hin]
  obtain ⟨address, text⟩ := s
  exact congrArg₂ Shown.mk haddress htext

/-- Lines that are true of some instructions, one for each, are those shown of them. -/
theorem eq_map_shown {is : List Instruction} {lines : List Shown}
    (h : List.Forall₂ (Shows base image) is lines) : lines = is.map (shown base image) := by
  induction h with
  | nil => rfl
  | cons hs _ ih => rw [List.map_cons, ← hs.eq_shown, ← ih]

/-- Each instruction is shown in one line. -/
theorem isLine_shown (base : Int64) (image : List UInt8) (i : Instruction) :
    IsLine (Text.Utf8.encode ((shown base image i).line ++ "\n")) := by
  have htext : lineFeed ∉ Text.Utf8.encode (textOf (bytesIn? image.toArray i)) := by
    cases bytesIn? image.toArray i with
    | none => decide
    | some bytes => exact Text.lineFeed_notMem_hexBytes bytes
  have hpieces : Unbroken (Word.hexPieces (i.offset + base)
      ++ [": ", textOf (bytesIn? image.toArray i)]) :=
    (GroundTruth.unbroken_hexPieces _).append
      (List.forall_mem_cons.2 ⟨by decide, List.forall_mem_singleton.2 htext⟩)
  have hjoin : (shown base image i).line ++ "\n" = String.join ((Word.hexPieces (i.offset + base)
      ++ [": ", textOf (bytesIn? image.toArray i)]) ++ ["\n"]) := by
    simp [shown, Shown.line, Word.hexPieces, String.append_assoc]
  rw [hjoin]
  exact isLine_join hpieces GroundTruth.isLine_lineFeed

/-! ## The whole dump -/

/-- The lines of a capture, each with its end. -/
theorem join_lines (c : RichCapture) (digest : String) (image : List UInt8) :
    String.join ((lines c digest image.toArray).map (· ++ "\n"))
      = "digest: " ++ c.digest
        ++ " (" ++ (if digest = c.digest then "matches" else "does not match")
        ++ " binary)\nbase address: " ++ Word.hexOffset c.base ++ "\ninstructions: "
        ++ toString (c.table.instructions.map (shown c.base image)).length ++ "\n"
        ++ String.join ((c.table.instructions.map (shown c.base image)).map (·.line ++ "\n")) := by
  have hlines : c.table.instructions.map (line c.base image.toArray)
      = (c.table.instructions.map (shown c.base image)).map Shown.line := by
    rw [List.map_map]
    exact List.map_congr_left fun i _ => line_eq c.base image i
  have hsize : c.table.size = (c.table.instructions.map (shown c.base image)).length := by
    rw [List.length_map, SortedMap.instructions, List.length_map, SortedMap.size]
  have hbase : " binary)\nbase address: " = " binary)" ++ ("\n" ++ "base address: ") := by
    decide
  have hcount : "\ninstructions: " = "\n" ++ "instructions: " := by decide
  rw [lines, hlines, hsize, hbase, hcount]
  simp [-String.reduceAppend, String.join_cons, String.append_assoc, Function.comp_def]

/-- The tool reads the capture and the binary, and shows the lines. -/
theorem run_eq {args : Arguments} {h : Host} {c : RichCapture} {loc : Location}
    (hcapture : RichCapture.stored (args.path 1) h.files = .ok c)
    (hbinary : h.files.locate (args.path 0) = .ok (loc, .file image)) (himage : image ≠ []) :
    ∃ events, run args h
      = .ok (String.join ((lines c (Digest.ofBytes image) image.toArray).map (· ++ "\n")))
        { h with events } := by
  have hload : Failure.doing ("unable to read capture " ++ (args.path 1).quoted)
      (RichCapture.load (args.path 1)) h = .ok c h :=
    wrap_eq_ok_iff.2 ((RichCapture.answers_load _).eq_ok_iff.2 ⟨hcapture, rfl⟩)
  have hsource : sourceAt (args.path 0) h.files = .ok (Source.ofBytes image) := by
    rw [sourceAt, hbinary]
    rfl
  have hdigest : Failure.doing ("unable to hash " ++ (args.path 0).quoted)
      (Digest.ofFile (args.path 0)) h = .ok (Digest.ofBytes image) h := by
    refine wrap_eq_ok_iff.2 ((answers_ofFile _).eq_ok_iff.2 ⟨?_, rfl⟩)
    refine digestAt_eq_ok_iff.2 ⟨image, ?_, rfl⟩
    rw [contentsAt, hsource]
    exact congrArg Except.ok List.flatten_singleton
  have hopen : Failure.doing ("unable to open " ++ (args.path 0).quoted)
      (Job.openSource (args.path 0)) h = .ok (Source.ofBytes image) h :=
    wrap_eq_ok_iff.2 ((answers_openSource _).eq_ok_iff.2 ⟨hsource, rfl⟩)
  have hmap : Failure.lift (Job.mapFile (args.path 0)) h = .ok image h := by
    refine wrap_eq_ok_iff.2 ((answers_mapFile _).eq_ok_iff.2 ⟨?_, rfl⟩)
    rw [hbinary]
    exact if_neg (by simpa using himage)
  have hreport : ∀ next : Unit → Job Failure String,
      (ofLogged (reportOutside image.toArray c.table.instructions) >>= next) h
        = next () { h with
            events := (reportOutside image.toArray c.table.instructions h.events).2 } :=
    fun _ => bind_of_ok (ofLogged_of_eq rfl)
  refine ⟨(reportOutside image.toArray c.table.instructions h.events).2, ?_⟩
  rw [run, bind_of_ok hload, bind_of_ok hdigest, bind_of_ok hopen, bind_of_ok hmap, hreport]
  rfl

/-- **DUMPS**.  Of every capture and every binary that is not empty, the instructions are shown
    in ascending order, each with a line, and as many as the number in front of the lines says.
    Offsets and lengths make nothing fail, wherever they point. -/
theorem run_lines (args : Arguments) (h : Host) (c : RichCapture) (loc : Location)
    (image : List UInt8) (hcapture : RichCapture.stored (args.path 1) h.files = .ok c)
    (hbinary : h.files.locate (args.path 0) = .ok (loc, .file image)) (himage : image ≠ []) :
    ∃ (lines : List Shown) (events : List Log.Event),
      run args h = .ok
        ("digest: " ++ c.digest
          ++ " (" ++ (if Digest.ofBytes image = c.digest then "matches" else "does not match")
          ++ " binary)\nbase address: " ++ Word.hexOffset c.base ++ "\ninstructions: "
          ++ toString lines.length ++ "\n"
          ++ String.join (lines.map (·.line ++ "\n"))) { h with events }
      ∧ List.Forall₂ (Shows c.base image) c.table.instructions lines
      ∧ (c.table.instructions.Pairwise fun i j => i.offset.toInt < j.offset.toInt)
      ∧ (∀ i, i ∈ c.table.instructions ↔ c.table.find? i.offset = some i.length)
      ∧ ∀ s ∈ lines, IsLine (Text.Utf8.encode (s.line ++ "\n")) := by
  obtain ⟨events, hrun⟩ := run_eq hcapture hbinary himage
  rw [join_lines] at hrun
  refine ⟨c.table.instructions.map (shown c.base image), events, hrun, ?_, ?_, ?_, ?_⟩
  · exact List.forall₂_map_right_iff.2 (List.forall₂_same.2 fun i _ => shows_shown c.base image i)
  · exact List.pairwise_map.2 c.table.ascending
  · intro i
    rw [SortedMap.find?_eq_some_iff, SortedMap.instructions, List.mem_map]
    constructor
    · rintro ⟨e, he, rfl⟩
      exact he
    · intro hi
      exact ⟨_, hi, rfl⟩
  · intro s hs
    obtain ⟨i, -, rfl⟩ := List.mem_map.1 hs
    exact isLine_shown c.base image i

/-! ## Around the ends of an image -/

/-- In front of the image, in it, across its end and behind its last byte. -/
def edges : RichCapture :=
  ⟨"d", -16, .ofList [(-1, 2), (0, 2), (2, 2), (3, 0)]⟩

/-- The capture `c` of a binary `b` with three bytes. -/
def edgesStored : FileTree :=
  ⟨[([[98]], .file [1, 2, 255]), ([[99]], .file edges.encode)], []⟩

/-- Bytes are shown of what lies in the image as a whole, and none of what is behind the last. -/
theorem run_lines_edges :
    RichCapture.stored ⟨[99]⟩ edgesStored = .ok edges
    ∧ edgesStored.locate ⟨[98]⟩ = .ok ([[98]], .file [1, 2, 255])
    ∧ ∃ (lines : List Shown) (text : String) (events : List Log.Event),
      run ⟨["b", "c"], []⟩ ⟨edgesStored, []⟩ = .ok text ⟨edgesStored, events⟩
      ∧ lines.map (·.line) = ["0xffffffffffffffef: <outside of binary>", "0xfffffffffffffff0: 0102",
        "0xfffffffffffffff2: <outside of binary>", "0xfffffffffffffff3: "] := by
  have hcapture : RichCapture.stored ⟨[99]⟩ edgesStored = .ok edges := by
    have hloc : edgesStored.fileAt? ⟨[99]⟩ = some [[99]] :=
      FileTree.fileAt?_name rfl rfl rfl (by decide) (Or.inr ⟨_, rfl⟩)
    exact RichCapture.stored_of_fileAt? hloc rfl (by decide) (by decide)
  have hbinary : edgesStored.locate ⟨[98]⟩ = .ok ([[98]], .file [1, 2, 255]) := by
    have hloc : edgesStored.fileAt? ⟨[98]⟩ = some [[98]] :=
      FileTree.fileAt?_name rfl rfl rfl (by decide) (Or.inr ⟨_, rfl⟩)
    exact FileTree.locate_of_fileAt? hloc rfl
  obtain ⟨lines, events, hrun, hshows, -⟩ := run_lines ⟨["b", "c"], []⟩ ⟨edgesStored, []⟩ edges
    [[98]] [1, 2, 255] hcapture hbinary (by decide)
  refine ⟨hcapture, hbinary, lines, _, events, hrun, ?_⟩
  rw [eq_map_shown hshows]
  decide +kernel

end Tool.Dump

end ExecTruth
