import ExecTruth.Elf.LoadBase
import Mathlib.Data.Int.ModEq
import Mathlib.Data.List.Forall2
import Mathlib.Data.Nat.Bitwise

/-! # Section tables — one table in files of any width and byte order

    A file is written as its encoding says: every number in as many bytes as its field has,
    one field behind the other.  Whoever looks where it is written sees it again, field by
    field (`Looking.run_fields`), section header by section header (`Looking.run_entries`),
    and so the whole table, wherever in the file it is, and whether the file header or the
    first entry says how long it is (`sections_of_carries`).

    So the encoding is not seen in what is read: a table with numbers of 32 bits gives the
    same sections and the same load base in all four encodings (`loadBase_of_carries`).  The
    load base is the address of the first section of code less its offset, and wraps as the
    addresses do. -/

namespace ExecTruth

namespace Elf

variable {e : Encoding} {file rest : List UInt8} {start : Nat}

/-! ## Looks -/

namespace Looking

variable {α β : Type}

/-- One behind the other gives what the second gives for what the first has given. -/
theorem run_bind (file : List UInt8) (r : Looking α) (next : α → Looking β) :
    (r >>= next).run file = r.run file >>= fun a => (next a).run file := by
  induction r with
  | done a => rfl
  | fail fault => rfl
  | look span after ih => exact ih _

/-- Behind what was read, the looks go on in the same file. -/
theorem run_bind_of_ok {r : Looking α} {a : α} (h : r.run file = .ok a) (next : α → Looking β) :
    (r >>= next).run file = (next a).run file := by
  rw [run_bind, h]
  rfl

/-- What was given already is seen in any file. -/
theorem run_ofExcept (file : List UInt8) (r : Except HeaderFault α) :
    (ofExcept r).run file = r := by
  cases r <;> rfl

end Looking

/-- What stands behind some bytes of a file stands where they end. -/
theorem drop_of_placed {bytes : List UInt8} (h : file.drop start = bytes ++ rest) :
    file.drop (start + bytes.length) = rest := by
  rw [← List.drop_drop, h, List.drop_left]

/-! ## Fields -/

namespace Encoding

/-- Numbers one behind the other, each in as many bytes as its field has. -/
def store (e : Encoding) (sizes numbers : List Nat) : List UInt8 :=
  (List.zipWith e.bytes sizes numbers).flatten

/-- Each number fits in its field. -/
def Fit (sizes numbers : List Nat) : Prop :=
  List.Forall₂ (fun size n => n < Word.capacity size) sizes numbers

instance (sizes numbers : List Nat) : Decidable (Fit sizes numbers) :=
  inferInstanceAs (Decidable (List.Forall₂ _ _ _))

variable {size n : Nat}

/-- A number takes as many bytes as its field has, whatever the number. -/
@[simp] theorem length_bytes (e : Encoding) (size n : Nat) : (e.bytes size n).length = size := by
  unfold bytes
  cases e.order with
  | little => exact Word.length_toLittle size n
  | big => exact (List.length_reverse).trans (Word.length_toLittle size n)

/-- The bytes of a number that fits in its field stand for it, in either byte order. -/
theorem value_bytes (h : n < Word.capacity size) : e.value (e.bytes size n) = n := by
  have hread : Word.ofLittle (Word.toLittle size n) = n := by
    rw [Word.ofLittle_toLittle, Nat.mod_eq_of_lt h]
  unfold value bytes
  cases e.order with
  | little => exact hread
  | big =>
      -- the highest byte comes first both when it is written and when it is read
      show Word.ofLittle (Word.toLittle size n).reverse.reverse = n
      rw [List.reverse_reverse, hread]

/-- The fields take as many bytes as their sizes add up to. -/
theorem length_store {sizes numbers : List Nat} (h : sizes.length = numbers.length) :
    (e.store sizes numbers).length = sizes.sum := by
  unfold store
  induction sizes generalizing numbers with
  | nil => rfl
  | cons size rest ih =>
      cases numbers with
      | nil => exact nomatch h
      | cons n numbers =>
          rw [List.zipWith_cons_cons, List.flatten_cons, List.length_append, length_bytes,
            ih (Nat.succ.inj h), List.sum_cons]

/-- No field of a file header is empty. -/
theorem headerSizes_pos (e : Encoding) : ∀ size ∈ e.headerSizes, 0 < size := by
  unfold headerSizes wordSize
  cases e.width <;> decide

/-- No field of a section header is empty. -/
theorem sectionSizes_pos (e : Encoding) : ∀ size ∈ e.sectionSizes, 0 < size := by
  unfold sectionSizes wordSize
  cases e.width <;> decide

end Encoding

namespace Looking

variable {size n : Nat} {sizes ns : List Nat}

/-- A number that fits in its field is seen where it is stored. -/
theorem run_field (hsize : 0 < size) (hn : n < Word.capacity size)
    (hplaced : file.drop start = e.bytes size n ++ rest) :
    (field e file.length start size).run file = .ok n := by
  have hlength := congrArg List.length hplaced
  rw [List.length_drop, List.length_append, Encoding.length_bytes] at hlength
  have hlong : ¬ file.length < start + size := by omega
  have hbytes : Span.bytesOf ⟨start, size⟩ file = e.bytes size n := by
    rw [Span.bytesOf, hplaced, List.take_left' (e.length_bytes size n)]
  rw [field, if_neg hlong]
  show Except.ok (e.value (Span.bytesOf ⟨start, size⟩ file)) = _
  rw [hbytes, Encoding.value_bytes hn]

/-- So are numbers in fields one behind the other. -/
theorem run_fields (hsizes : ∀ size ∈ sizes, 0 < size) (hfit : Encoding.Fit sizes ns)
    (hplaced : file.drop start = e.store sizes ns ++ rest) :
    (fields e file.length start sizes).run file = .ok ns := by
  -- numbers that fit are read one by one, each behind the bytes of those before
  induction hfit generalizing start with
  | nil => rfl
  | @cons size n sizes ns hn _ ih =>
      obtain ⟨hsize, hsizes⟩ := List.forall_mem_cons.1 hsizes
      have hfirst : file.drop start = e.bytes size n ++ (e.store sizes ns ++ rest) :=
        hplaced.trans (List.append_assoc _ _ _)
      have hothers := drop_of_placed hfirst
      rw [Encoding.length_bytes] at hothers
      rw [fields, run_bind_of_ok (run_field hsize hn hfirst),
        run_bind_of_ok (ih hsizes hothers)]
      rfl

end Looking

/-! ## Section headers -/

namespace Section

variable {s : Section}

/-- The numbers in the fields of a section header. -/
def numbers (s : Section) : List Nat :=
  [s.name, s.kind, s.flags, s.address, s.offset, s.size, s.link, s.info, s.alignment,
    s.entrySize].map UInt64.toNat

/-- A section header as it is stored. -/
def bytes (e : Encoding) (s : Section) : List UInt8 := e.store e.sectionSizes s.numbers

/-- A section header is as long as its encoding says, whatever its numbers. -/
theorem length_bytes (e : Encoding) (s : Section) : (s.bytes e).length = e.sectionHeaderSize := by
  have hfields : e.sectionSizes.length = s.numbers.length := rfl
  rw [bytes, Encoding.length_store hfields]
  unfold Encoding.sectionSizes Encoding.wordSize Encoding.sectionHeaderSize
  cases e.width <;> rfl

/-- The numbers of a section header fit in its fields. -/
def Fits (e : Encoding) (s : Section) : Prop := Encoding.Fit e.sectionSizes s.numbers

/-- Numbers of 32 bits fit in the fields of every encoding. -/
theorem fits_of_lt (e : Encoding) (h : ∀ n ∈ s.numbers, n < 2 ^ 32) : s.Fits e := by
  have hword : 2 ^ 32 ≤ Word.capacity e.wordSize := by
    unfold Encoding.wordSize
    cases e.width <;> decide
  have hquad : 2 ^ 32 ≤ Word.capacity 4 := by decide
  have hsizes : ∀ size ∈ e.sectionSizes, 2 ^ 32 ≤ Word.capacity size := by
    simp only [Encoding.sectionSizes, List.forall_mem_cons, hword, hquad, List.not_mem_nil,
      false_imp_iff, implies_true, and_self]
  rw [Fits, Encoding.Fit, List.forall₂_iff_zip]
  refine ⟨rfl, fun {size n} hfield => ?_⟩
  obtain ⟨hsize, hn⟩ := List.of_mem_zip hfield
  exact Nat.lt_of_lt_of_le (h n hn) (hsizes size hsize)

/-- The numbers of a section header make it up again. -/
theorem ofNumbers_numbers (s : Section) : ofNumbers s.numbers = s := by
  simp only [numbers, List.map_cons, List.map_nil, ofNumbers, Nat.toUInt64_eq, UInt64.ofNat_toNat]

/-- Section headers one behind the other are as long as their number says. -/
theorem length_flatMap_bytes (e : Encoding) (table : List Section) :
    (table.flatMap (bytes e)).length = table.length * e.sectionHeaderSize := by
  induction table with
  | nil => exact (Nat.zero_mul _).symm
  | cons s table ih =>
      rw [List.flatMap_cons, List.length_append, length_bytes, ih, List.length_cons, Nat.succ_mul,
        Nat.add_comm]

end Section

namespace Looking

/-- A section header is seen where it is stored. -/
theorem run_entry {s : Section} (hfits : s.Fits e)
    (hplaced : file.drop start = s.bytes e ++ rest) :
    (entry e file.length start).run file = .ok s := by
  rw [entry, run_bind_of_ok (run_fields e.sectionSizes_pos hfits hplaced)]
  exact congrArg Except.ok s.ofNumbers_numbers

/-- So are section headers one behind the other. -/
theorem run_entries {table : List Section} (hfits : ∀ s ∈ table, s.Fits e)
    (hplaced : file.drop start = table.flatMap (Section.bytes e) ++ rest) :
    (entries e file.length table.length start).run file = .ok table := by
  induction table generalizing start with
  | nil => rfl
  | cons s table ih =>
      obtain ⟨hs, htable⟩ := List.forall_mem_cons.1 hfits
      rw [List.flatMap_cons, List.append_assoc] at hplaced
      have hothers := drop_of_placed hplaced
      rw [Section.length_bytes] at hothers
      rw [List.length_cons, entries, run_bind_of_ok (run_entry hs hplaced),
        run_bind_of_ok (ih htable hothers)]
      rfl

end Looking

/-! ## Files -/

/-- The byte that tells the width of the words of a file. -/
def Width.mark : Width → UInt8
  | .bits32 => 1
  | .bits64 => 2

/-- The byte that tells the order of the bytes of a field. -/
def ByteOrder.mark : ByteOrder → UInt8
  | .little => 1
  | .big => 2

/-- The identification of a file, with the ten bytes that say nothing about its fields. -/
def identification (e : Encoding) (other : List UInt8) : List UInt8 :=
  magic ++ [e.width.mark, e.order.mark] ++ other

/-- The fields of a file header. -/
structure FileHeader where
  kind : Nat
  machine : Nat
  version : Nat
  entry : Nat
  programOffset : Nat
  sectionOffset : Nat
  flags : Nat
  headerSize : Nat
  programEntrySize : Nat
  programCount : Nat
  sectionEntrySize : Nat
  sectionCount : Nat
  nameTable : Nat
  deriving DecidableEq, Repr

/-- The numbers in the fields of a file header. -/
def FileHeader.numbers (h : FileHeader) : List Nat :=
  [h.kind, h.machine, h.version, h.entry, h.programOffset, h.sectionOffset, h.flags, h.headerSize,
    h.programEntrySize, h.programCount, h.sectionEntrySize, h.sectionCount, h.nameTable]

/-- A file in an encoding that has a header, and a section table where the header says. -/
structure Carries (e : Encoding) (header : FileHeader) (table : List Section)
    (file : List UInt8) : Prop where
  begins : ∃ other rest, other.length = 10
    ∧ file = identification e other ++ (e.store e.headerSizes header.numbers ++ rest)
  fits : Encoding.Fit e.headerSizes header.numbers
  placed : header.sectionOffset ≠ 0
    ∧ ∃ rest, file.drop header.sectionOffset = table.flatMap (Section.bytes e) ++ rest
  /-- The header says how many sections there are, or says none and the first of them does. -/
  counted : header.sectionCount = table.length
    ∨ header.sectionCount = 0 ∧ ∃ s ∈ table.head?, s.size.toNat = table.length

variable {header : FileHeader} {table : List Section} {other : List UInt8}

/-- An identification has all its bytes. -/
theorem length_identification (h : other.length = 10) :
    (identification e other).length = identSize := by
  simp [identification, magic, identSize, h]

/-- The identification of an encoding tells of it. -/
theorem run_identification (h : other.length = 10) (rest : List UInt8) :
    (Looking.identification (identification e other ++ rest).length).run
      (identification e other ++ rest) = .ok e := by
  have hsize := length_identification (e := e) h
  have hlong : ¬ (identification e other ++ rest).length < identSize := by
    rw [List.length_append, hsize]
    omega
  have hbytes : Span.bytesOf ⟨0, identSize⟩ (identification e other ++ rest)
      = identification e other := List.take_left' hsize
  have hidentify : identify (identification e other) = .ok e := by
    obtain ⟨width, order⟩ := e
    cases width <;> cases order <;> rfl
  rw [Looking.identification, if_neg hlong]
  show (Looking.ofExcept (identify (Span.bytesOf ⟨0, identSize⟩ _))).run _ = _
  rw [hbytes, hidentify]
  rfl

/-- The file header stands right behind the identification. -/
theorem drop_identification (h : other.length = 10) (rest : List UInt8) :
    (identification e other ++ rest).drop identSize = rest :=
  List.drop_left' (length_identification h)

/-- A file with its section table right behind its header. -/
def fileOf (e : Encoding) (header : FileHeader) (table : List Section) : List UInt8 :=
  identification e (List.replicate 10 0)
    ++ (e.store e.headerSizes header.numbers ++ table.flatMap (Section.bytes e))

/-- Such a file carries its table if its header says where it is and how long. -/
theorem carries_fileOf (hfits : Encoding.Fit e.headerSizes header.numbers)
    (hoffset : header.sectionOffset = identSize + e.headerSizes.sum)
    (hcounted : header.sectionCount = table.length
      ∨ header.sectionCount = 0 ∧ ∃ s ∈ table.head?, s.size.toNat = table.length) :
    Carries e header table (fileOf e header table) := by
  have hother : (List.replicate 10 (0 : UInt8)).length = 10 := List.length_replicate
  have hheader : (e.store e.headerSizes header.numbers).length = e.headerSizes.sum :=
    Encoding.length_store hfits.length_eq
  refine ⟨⟨_, _, hother, rfl⟩, hfits, ⟨?_, [], ?_⟩, hcounted⟩
  · rw [hoffset]
    exact Nat.ne_of_gt (Nat.lt_add_right _ (by decide))
  · rw [hoffset, fileOf, ← List.drop_drop, drop_identification hother, List.drop_left' hheader,
      List.append_nil]

/-- A header is seen as far as it tells of sections. -/
theorem header_of_carries (h : Carries e header table file) :
    (Looking.header file.length).run file
      = .ok ⟨e, header.sectionOffset, header.sectionCount⟩ := by
  obtain ⟨other, rest, hother, rfl⟩ := h.begins
  have hplaced := drop_identification (e := e) hother
    (e.store e.headerSizes header.numbers ++ rest)
  rw [Looking.header, Looking.run_bind_of_ok (run_identification hother _),
    Looking.run_bind_of_ok (Looking.run_fields e.headerSizes_pos h.fits hplaced)]
  rfl

/-- A table that is carried is read, and nothing else. -/
theorem sections_of_carries (h : Carries e header table file) (hne : table ≠ [])
    (hfits : ∀ s ∈ table, s.Fits e) : sections file = .ok table := by
  obtain ⟨s, others, rfl⟩ := List.exists_cons_of_ne_nil hne
  obtain ⟨hoffset, rest, hplaced⟩ := h.placed
  obtain ⟨hs, hothers⟩ := List.forall_mem_cons.1 hfits
  -- the file is long enough for the table, and so for its count
  have hlength := congrArg List.length hplaced
  rw [List.length_drop, List.length_append, Section.length_flatMap_bytes] at hlength
  have hsize : 0 < e.sectionHeaderSize := by
    unfold Encoding.sectionHeaderSize
    cases e.width <;> decide
  have hinside : ¬ file.length < header.sectionOffset := by
    intro hlt
    have hnone : file.length - header.sectionOffset = 0 := by omega
    rw [hnone, List.length_cons, Nat.succ_mul] at hlength
    omega
  have hroom : ¬ file.length / e.sectionHeaderSize < (s :: others).length := by
    rw [Nat.div_lt_iff_lt_mul hsize]
    omega
  have hcount : (if header.sectionCount = 0 then s.size.toNat else header.sectionCount)
      = (s :: others).length := by
    rcases h.counted with hcount | ⟨hzero, first, hfirst, hcount⟩
    · rw [if_neg (by rw [hcount]; exact Nat.succ_ne_zero _), hcount]
    · cases hfirst
      rw [if_pos hzero, hcount]
  rw [List.flatMap_cons, List.append_assoc] at hplaced
  have hbehind := drop_of_placed hplaced
  rw [Section.length_bytes] at hbehind
  rw [sections, Looking.sections, Looking.run_bind_of_ok (header_of_carries h), Looking.table]
  dsimp only
  rw [if_neg hoffset, if_neg hinside, Looking.run_bind_of_ok (Looking.run_entry hs hplaced), hcount,
    if_neg hroom]
  exact Looking.run_bind_of_ok (Looking.run_entries hothers hbehind) _

/-! ## Sections of code -/

namespace Section

/-- The section has a flag. -/
def Has (flag : UInt64) (s : Section) : Prop := s.flags &&& flag ≠ 0

instance (flag : UInt64) (s : Section) : Decidable (s.Has flag) :=
  inferInstanceAs (Decidable (_ ≠ _))

/-- Of a flag, there is all or nothing. -/
theorem and_eq_of_ne_zero {flags flag : UInt64} {i : Nat} (hflag : flag.toNat = 2 ^ i)
    (h : flags &&& flag ≠ 0) : flags &&& flag = flag := by
  have hbit : (flags &&& flag).toNat = (flags.toNat.testBit i).toNat * 2 ^ i := by
    rw [UInt64.toNat_and, hflag, Nat.and_two_pow]
  refine UInt64.toNat_inj.1 ?_
  cases htest : flags.toNat.testBit i with
  | false =>
      rw [htest] at hbit
      exact absurd (UInt64.toNat_inj.1 (hbit.trans (Nat.zero_mul _))) h
  | true =>
      rw [hbit, htest, hflag]
      exact Nat.one_mul _

/-- The mask of the two flags tests each of them. -/
theorem isCode_iff {s : Section} :
    s.isCode = true ↔ s.Has allocatedFlag ∧ s.Has executableFlag := by
  have hboth : s.isCode = true
      ↔ s.flags &&& (allocatedFlag ||| executableFlag) = allocatedFlag ||| executableFlag :=
    beq_iff_eq
  rw [hboth]
  constructor
  · intro h
    have hpart : ∀ flag, (allocatedFlag ||| executableFlag) &&& flag = flag →
        s.flags &&& flag = flag := by
      intro flag hflag
      rw [← hflag, ← UInt64.and_assoc, h]
    refine ⟨?_, ?_⟩
    · show s.flags &&& allocatedFlag ≠ 0
      rw [hpart allocatedFlag (by decide)]
      decide
    · show s.flags &&& executableFlag ≠ 0
      rw [hpart executableFlag (by decide)]
      decide
  · rintro ⟨hallocated, hexecutable⟩
    have hparts : s.flags &&& (allocatedFlag ||| executableFlag)
        = s.flags &&& allocatedFlag ||| s.flags &&& executableFlag :=
      UInt64.toNat_inj.1 (Nat.and_or_distrib_left _ _ _)
    -- each flag is one bit, so what is not zero of it is the whole flag
    rw [hparts, and_eq_of_ne_zero (i := 1) rfl hallocated,
      and_eq_of_ne_zero (i := 2) rfl hexecutable]

/-- The first section of code among others, those in front of it being none. -/
def FirstCode (table : List Section) (s : Section) : Prop :=
  ∃ front back, table = front ++ s :: back ∧ (s.Has allocatedFlag ∧ s.Has executableFlag)
    ∧ ∀ q ∈ front, ¬ (q.Has allocatedFlag ∧ q.Has executableFlag)

/-- The search for code stops at the first section with both flags. -/
theorem find?_isCode_eq_some_iff {table : List Section} {s : Section} :
    table.find? (·.isCode) = some s ↔ FirstCode table s := by
  rw [List.find?_eq_some_iff_append]
  constructor
  · rintro ⟨hs, front, back, rfl, hfront⟩
    refine ⟨front, back, rfl, isCode_iff.1 hs, fun q hq hcode => ?_⟩
    have hnot := hfront q hq
    rw [isCode_iff.2 hcode] at hnot
    exact nomatch hnot
  · rintro ⟨front, back, rfl, hs, hfront⟩
    refine ⟨isCode_iff.2 hs, front, back, rfl, fun q hq => ?_⟩
    rw [Bool.not_eq_true', Bool.eq_false_iff]
    exact fun hcode => hfront q hq (isCode_iff.1 hcode)

end Section

end Elf

/-! ## Load bases -/

open Elf

variable {file : List UInt8} {table : List Section} {s : Section}

/-- A difference of words that is taken as an offset gives the word back, modulo 2 ^ 64. -/
theorem toInt_sub_add_modEq (address offset : UInt64) :
    (address - offset).toInt64.toInt + offset.toNat ≡ address.toNat [ZMOD 2 ^ 64] := by
  have hsigned : (address - offset).toInt64.toInt ≡ (address - offset).toNat [ZMOD 2 ^ 64] := by
    show (address - offset).toBitVec.toInt ≡ _ [ZMOD 2 ^ 64]
    rw [BitVec.toInt_eq_toNat_bmod]
    exact Int.bmod_emod
  have hword : (address - offset + offset).toNat = address.toNat := by
    rw [UInt64.sub_add_cancel]
  rw [UInt64.toNat_add] at hword
  calc (address - offset).toInt64.toInt + offset.toNat
      ≡ (address - offset).toNat + offset.toNat [ZMOD 2 ^ 64] := hsigned.add_right _
    _ ≡ address.toNat [ZMOD 2 ^ 64] := by
      rw [← hword]
      exact (Int.mod_modEq _ _).symm

/-- The load base is how far the first code section is moved, in two's complement. -/
theorem loadBase_of_firstCode (h : sections file = .ok table) (hs : Section.FirstCode table s) :
    loadBase file = .ok (s.address - s.offset).toInt64 := by
  rw [loadBase, h]
  dsimp only
  rw [Section.find?_isCode_eq_some_iff.2 hs]

/-- In a table without such a section there is no code to be found. -/
theorem loadBase_of_no_code (h : sections file = .ok table)
    (hnone : ∀ s ∈ table, ¬ (s.Has Section.allocatedFlag ∧ s.Has Section.executableFlag)) :
    loadBase file = .error .noCode := by
  have hfind : table.find? (·.isCode) = none :=
    List.find?_eq_none.2 fun s hs hcode => hnone s hs (Section.isCode_iff.1 hcode)
  rw [loadBase, h]
  dsimp only
  rw [hfind]

/-- **SECTION TABLES**.  A table that a file carries in any encoding is read as it is.  The load
    base and the offset of the first section of code add up to its address, modulo 2 ^ 64, and
    without a section of code there is no load base.  If all numbers have 32 bits, the table
    may be carried in any other encoding as well, with any other header, and gives the same
    sections and the same load base. -/
theorem loadBase_of_carries (e : Encoding) (header : FileHeader) (table : List Section)
    (file : List UInt8) (h : Carries e header table file) (hne : table ≠ [])
    (hfits : ∀ s ∈ table, s.Fits e) :
    sections file = .ok table
    ∧ (∀ s, Section.FirstCode table s → ∃ b, loadBase file = .ok b
      ∧ b.toInt + s.offset.toNat ≡ s.address.toNat [ZMOD 2 ^ 64])
    ∧ ((∀ s ∈ table, ¬ (s.Has Section.allocatedFlag ∧ s.Has Section.executableFlag)) →
      loadBase file = .error .noCode)
    ∧ ((∀ s ∈ table, ∀ n ∈ s.numbers, n < 2 ^ 32) → ∀ e' header' file',
      Carries e' header' table file' →
        sections file' = sections file ∧ loadBase file' = loadBase file) := by
  have hsections := sections_of_carries h hne hfits
  refine ⟨hsections, fun s hs => ?_, loadBase_of_no_code hsections, ?_⟩
  · exact ⟨_, loadBase_of_firstCode hsections hs, toInt_sub_add_modEq s.address s.offset⟩
  · intro hsmall e' header' file' h'
    have hfits' : ∀ s ∈ table, s.Fits e' := fun s hs => Section.fits_of_lt e' (hsmall s hs)
    have hsections' := sections_of_carries h' hne hfits'
    refine ⟨hsections'.trans hsections.symm, ?_⟩
    rw [loadBase, loadBase, hsections, hsections']

/-- An entry that tells the number of all, one that is loaded but no code, and one of code whose
    offset is greater than its address. -/
private def threeSections : List Section :=
  [⟨0, 0, 0, 0, 0, 3, 0, 0, 0, 0⟩, ⟨1, 1, 2, 0x400114, 0x114, 8, 0, 0, 4, 0⟩,
    ⟨7, 1, 6, 0x1000, 0x80001000, 16, 0, 0, 16, 0⟩]

/-- Stored with words of 32 bits, highest byte first, and counted by the first entry, or with
    words of 64 bits, lowest byte first, and counted by the header: the load base is the
    same, and is below zero. -/
theorem loadBase_of_carries_other_encoding :
    let e : Encoding := ⟨.bits32, .big⟩
    let e' : Encoding := ⟨.bits64, .little⟩
    let header : FileHeader := ⟨2, 8, 1, 0, 0, 52, 0, 52, 0, 0, 7, 0, 0⟩
    let header' : FileHeader := ⟨3, 62, 1, 0, 0, 64, 0, 64, 0, 0, 64, 3, 0⟩
    Carries e header threeSections (fileOf e header threeSections)
    ∧ threeSections ≠ [] ∧ (∀ s ∈ threeSections, s.Fits e)
    ∧ sections (fileOf e header threeSections) = .ok threeSections
    ∧ ∃ b, loadBase (fileOf e header threeSections) = .ok b
      ∧ b.toInt + 0x80001000 ≡ 0x1000 [ZMOD 2 ^ 64]
      ∧ loadBase (fileOf e' header' threeSections) = .ok b := by
  intro e e' header header'
  have hcarries : Carries e header threeSections (fileOf e header threeSections) :=
    carries_fileOf (by decide) (by decide) (Or.inr ⟨rfl, _, rfl, rfl⟩)
  have hcarries' : Carries e' header' threeSections (fileOf e' header' threeSections) :=
    carries_fileOf (by decide) (by decide) (Or.inl rfl)
  have hsmall : ∀ s ∈ threeSections, ∀ n ∈ s.numbers, n < 2 ^ 32 := by decide
  have hfits : ∀ s ∈ threeSections, s.Fits e := fun s hs => Section.fits_of_lt e (hsmall s hs)
  obtain ⟨hsections, hbase, -, hsame⟩ := loadBase_of_carries e header threeSections
    (fileOf e header threeSections) hcarries (by decide) hfits
  obtain ⟨b, hb, hsum⟩ := hbase ⟨7, 1, 6, 0x1000, 0x80001000, 16, 0, 0, 16, 0⟩
    ⟨threeSections.take 2, [], rfl, by decide, by decide⟩
  refine ⟨hcarries, by decide, hfits, hsections, b, hb, hsum, ?_⟩
  rw [(hsame hsmall e' header' (fileOf e' header' threeSections) hcarries').2, hb]

end ExecTruth
