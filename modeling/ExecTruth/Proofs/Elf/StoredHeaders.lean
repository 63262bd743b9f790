import ExecTruth.Proofs.Elf.SectionTables
import ExecTruth.Proofs.Stream.Readers

/-! # Stored headers — what a file has where headers are seen

    Fields that are seen one behind the other are stored there (`Looking.fields_eq_ok`), and so
    are the headers that they make up (`Looking.entry_eq_ok`, `Looking.header_eq_ok`).  So a
    table that is read stands in the file, from the offset that the file header says, and has
    as many entries as are declared (`sections_eq_ok`). -/

namespace ExecTruth.Elf

open Reader (bind_eq_ok)

variable {e : Encoding} {size n count start : Nat} {file : List UInt8} {sizes ns : List Nat}

/-! ## Fields -/

/-- A part that does not go beyond the end has all its bytes. -/
theorem Span.length_bytesOf {span : Span} (h : span.start + span.size ≤ file.length) :
    (span.bytesOf file).length = span.size := by
  rw [bytesOf, List.length_take, List.length_drop]
  omega

namespace Encoding

/-- What bytes stand for fits in a field of their number. -/
theorem value_lt (e : Encoding) (bytes : List UInt8) :
    e.value bytes < Word.capacity bytes.length := by
  unfold value
  cases e.order with
  | little => exact Word.ofLittle_lt bytes
  | big => exact List.length_reverse ▸ Word.ofLittle_lt bytes.reverse

/-- The bytes are those of what they stand for. -/
theorem bytes_value (e : Encoding) (bytes : List UInt8) :
    e.bytes bytes.length (e.value bytes) = bytes := by
  unfold value Encoding.bytes
  cases e.order with
  | little => exact Word.toLittle_ofLittle bytes
  | big =>
      have hread := Word.toLittle_ofLittle bytes.reverse
      rw [List.length_reverse] at hread
      show (Word.toLittle bytes.length (Word.ofLittle bytes.reverse)).reverse = bytes
      rw [hread, List.reverse_reverse]

/-- Numbers in fields are below what the widest of these can hold. -/
theorem lt_of_fit {bound : Nat} (h : Fit sizes ns)
    (hsizes : ∀ size ∈ sizes, Word.capacity size ≤ bound) : ∀ n ∈ ns, n < bound := by
  induction h with
  | nil => exact nofun
  | cons hn _ ih =>
      obtain ⟨hsize, hsizes⟩ := List.forall_mem_cons.1 hsizes
      exact List.forall_mem_cons.2 ⟨Nat.lt_of_lt_of_le hn hsize, ih hsizes⟩

end Encoding

namespace Looking

variable {α β : Type}

/-- What came out of two looks went through the first. -/
theorem run_bind_eq_ok {r : Looking α} {next : α → Looking β} {b : β}
    (h : (r >>= next).run file = .ok b) :
    ∃ a, r.run file = .ok a ∧ (next a).run file = .ok b := by
  rw [run_bind] at h
  exact bind_eq_ok h

/-- A field that is seen has the bytes of its number, and these are in the file. -/
theorem field_eq_ok (h : (field e file.length start size).run file = .ok n) :
    n < Word.capacity size ∧ file.drop start = e.bytes size n ++ file.drop (start + size) := by
  rw [field] at h
  split at h
  · cases h
  · next hlong =>
      cases h
      have hlength : (Span.bytesOf ⟨start, size⟩ file).length = size :=
        Span.length_bytesOf (Nat.le_of_not_lt hlong)
      have hvalue := e.value_lt (Span.bytesOf ⟨start, size⟩ file)
      have hbytes := e.bytes_value (Span.bytesOf ⟨start, size⟩ file)
      rw [hlength] at hvalue hbytes
      refine ⟨hvalue, ?_⟩
      rw [hbytes, ← List.drop_drop]
      exact (List.take_append_drop size (file.drop start)).symm

/-- Fields that are seen have the bytes of their numbers, one behind the other. -/
theorem fields_eq_ok (h : (fields e file.length start sizes).run file = .ok ns) :
    Encoding.Fit sizes ns ∧ ∃ rest, file.drop start = e.store sizes ns ++ rest := by
  induction sizes generalizing start ns with
  | nil =>
      cases h
      exact ⟨.nil, _, rfl⟩
  | cons size sizes ih =>
      rw [fields] at h
      obtain ⟨n, hfield, h⟩ := run_bind_eq_ok h
      obtain ⟨others, hothers, h⟩ := run_bind_eq_ok h
      cases h
      obtain ⟨hn, hplaced⟩ := field_eq_ok hfield
      obtain ⟨hfit, rest, hbehind⟩ := ih hothers
      refine ⟨.cons hn hfit, rest, ?_⟩
      rw [hplaced, hbehind]
      exact (List.append_assoc _ _ _).symm

end Looking

/-! ## Section headers -/

/-- The numbers of a section header that is made of them are these: the widest field is that
    of a word. -/
theorem Section.numbers_ofNumbers (h : Encoding.Fit e.sectionSizes ns) :
    (ofNumbers ns).numbers = ns := by
  have hcapacity : ∀ size ∈ e.sectionSizes, Word.capacity size ≤ 2 ^ 64 := by
    unfold Encoding.sectionSizes Encoding.wordSize
    cases e.width <;> decide
  have hwords : (ofNumbers ns).numbers = ns.map fun n => n.toUInt64.toNat := by
    match ns, h.length_eq with
    | [_, _, _, _, _, _, _, _, _, _], _ => rfl
  have hsame : ∀ n ∈ ns, n.toUInt64.toNat = n := fun n hn =>
    Nat.mod_eq_of_lt (Encoding.lt_of_fit h hcapacity n hn)
  rw [hwords, List.map_congr_left hsame, List.map_id']

namespace Looking

/-- A section header that is seen is a stored one. -/
theorem entry_eq_ok {s : Section} (h : (entry e file.length start).run file = .ok s) :
    s.Fits e ∧ ∃ rest, file.drop start = s.bytes e ++ rest := by
  rw [entry] at h
  obtain ⟨ns, hfields, h⟩ := run_bind_eq_ok h
  cases h
  obtain ⟨hfit, rest, hplaced⟩ := fields_eq_ok hfields
  have hnumbers := Section.numbers_ofNumbers hfit
  rw [Section.Fits, Section.bytes, hnumbers]
  exact ⟨hfit, rest, hplaced⟩

/-- Section headers that are seen are stored ones. -/
theorem entries_eq_ok {table : List Section}
    (h : (entries e file.length count start).run file = .ok table) :
    table.length = count ∧ (∀ s ∈ table, s.Fits e)
      ∧ ∃ rest, file.drop start = table.flatMap (Section.bytes e) ++ rest := by
  induction count generalizing start table with
  | zero =>
      cases h
      exact ⟨rfl, nofun, _, rfl⟩
  | succ count ih =>
      rw [entries] at h
      obtain ⟨first, hfirst, h⟩ := run_bind_eq_ok h
      obtain ⟨others, hothers, h⟩ := run_bind_eq_ok h
      cases h
      obtain ⟨hfits, rest, hplaced⟩ := entry_eq_ok hfirst
      -- the others are looked for where the first one ends
      have hbehind := drop_of_placed hplaced
      rw [Section.length_bytes] at hbehind
      obtain ⟨rfl, hall, behind, hrest⟩ := ih hothers
      refine ⟨rfl, List.forall_mem_cons.2 ⟨hfits, hall⟩, behind, ?_⟩
      rw [hplaced, ← hbehind, hrest, List.flatMap_cons, List.append_assoc]

end Looking

/-! ## Files -/

/-- A file that begins with an identification and a file header. -/
structure BeginsWith (e : Encoding) (header : FileHeader) (file : List UInt8) : Prop where
  stored : ∃ other rest, other.length = 10
    ∧ file = identification e other ++ (e.store e.headerSizes header.numbers ++ rest)
  fits : Encoding.Fit e.headerSizes header.numbers

/-- The bytes of an identification are those of what it says, and ten others. -/
theorem identify_eq_ok {bytes : List UInt8} (hlength : bytes.length = identSize)
    (h : identify bytes = .ok e) : bytes = identification e (bytes.drop 6) := by
  have hlength : bytes.length = 16 := hlength
  rw [identify] at h
  by_cases hmagic : bytes.take 4 ≠ magic
  · rw [if_pos hmagic] at h
    cases h
  rw [if_neg hmagic] at h
  have hmarks : bytes.getD 4 0 = e.width.mark ∧ bytes.getD 5 0 = e.order.mark := by
    generalize bytes.getD 4 0 = width, bytes.getD 5 0 = order at h
    -- four of the pairs of marks are known; all others are faults
    split at h <;> split at h <;> cases h <;> exact ⟨rfl, rfl⟩
  rw [List.getD_eq_getElem _ _ (by omega), List.getD_eq_getElem _ _ (by omega)] at hmarks
  obtain ⟨hwidth, horder⟩ := hmarks
  calc bytes = bytes.take 4 ++ bytes.drop 4 := (List.take_append_drop 4 bytes).symm
    _ = magic ++ e.width.mark :: e.order.mark :: bytes.drop 6 := by
      rw [Decidable.of_not_not hmagic, List.drop_eq_getElem_cons (i := 4) (by omega), hwidth,
        List.drop_eq_getElem_cons (i := 5) (by omega), horder]
    _ = _ := by simp [identification]

/-- An encoding is told by the identification that a file begins with. -/
theorem identification_eq_ok (h : (Looking.identification file.length).run file = .ok e) :
    ∃ other, other.length = 10 ∧ file = identification e other ++ file.drop identSize := by
  rw [Looking.identification] at h
  split at h
  · cases h
  · next hlong =>
      have hidentify : identify (file.take identSize) = .ok e :=
        (Looking.run_ofExcept file (identify _)).symm.trans h
      have hlength : (file.take identSize).length = identSize :=
        List.length_take_of_le (Nat.le_of_not_lt hlong)
      refine ⟨(file.take identSize).drop 6, ?_, ?_⟩
      · rw [List.length_drop, hlength]
        rfl
      · rw [← identify_eq_ok hlength hidentify, List.take_append_drop]

/-- The file header with numbers in its fields. -/
def FileHeader.ofNumbers : List Nat → FileHeader
  | [kind, machine, version, entry, programOffset, sectionOffset, flags, headerSize,
      programEntrySize, programCount, sectionEntrySize, sectionCount, nameTable] =>
      ⟨kind, machine, version, entry, programOffset, sectionOffset, flags, headerSize,
        programEntrySize, programCount, sectionEntrySize, sectionCount, nameTable⟩
  | _ => ⟨0, 0, 0, 0, 0, 0, 0, 0, 0, 0, 0, 0, 0⟩

/-- Of as many numbers as there are fields, none is lost. -/
theorem FileHeader.numbers_ofNumbers (h : ns.length = 13) : (ofNumbers ns).numbers = ns := by
  match ns, h with
  | [_, _, _, _, _, _, _, _, _, _, _, _, _], _ => rfl

/-- The header that is read of the numbers says what the file header does. -/
theorem Header.ofNumbers_eq (e : Encoding) (h : ns.length = 13) :
    ofNumbers e ns
      = ⟨e, (FileHeader.ofNumbers ns).sectionOffset, (FileHeader.ofNumbers ns).sectionCount⟩ := by
  match ns, h with
  | [_, _, _, _, _, _, _, _, _, _, _, _, _], _ => rfl

/-- Whatever the numbers, the encoding is that of the file. -/
theorem Header.encoding_ofNumbers (e : Encoding) (ns : List Nat) :
    (ofNumbers e ns).encoding = e := by
  unfold ofNumbers
  split <;> rfl

/-- A header that is seen is a stored one. -/
theorem Looking.header_eq_ok {read : Header} (h : (header file.length).run file = .ok read) :
    ∃ header, BeginsWith read.encoding header file
      ∧ read = ⟨read.encoding, header.sectionOffset, header.sectionCount⟩ := by
  rw [header] at h
  obtain ⟨e, hidentify, h⟩ := run_bind_eq_ok h
  obtain ⟨ns, hfields, h⟩ := run_bind_eq_ok h
  cases h
  obtain ⟨other, hother, hfile⟩ := identification_eq_ok hidentify
  obtain ⟨hfit, rest, hplaced⟩ := fields_eq_ok hfields
  have hlength : ns.length = 13 := hfit.length_eq.symm
  have hnumbers := FileHeader.numbers_ofNumbers hlength
  rw [Header.ofNumbers_eq e hlength]
  refine ⟨FileHeader.ofNumbers ns, ⟨⟨other, rest, hother, ?_⟩, ?_⟩, rfl⟩
  · rw [hnumbers, ← hplaced, ← hfile]
  · rw [hnumbers]
    exact hfit

/-! ## Section tables -/

/-- The number of entries that the header declares for a table; if it declares none, the first
    entry does. -/
def FileHeader.declared (header : FileHeader) (table : List Section) : Nat :=
  if header.sectionCount = 0 then table.head?.elim 0 fun first => first.size.toNat
  else header.sectionCount

/-- A file with a header and, where that says, section headers one behind the other. -/
structure HasTable (e : Encoding) (header : FileHeader) (table : List Section)
    (file : List UInt8) : Prop where
  begins : BeginsWith e header file
  offset : header.sectionOffset ≠ 0
  stored : ∃ rest, file.drop header.sectionOffset = table.flatMap (Section.bytes e) ++ rest
  fits : ∀ s ∈ table, s.Fits e
  inside : header.sectionOffset + table.length * e.sectionHeaderSize ≤ file.length

variable {header : FileHeader} {table front back : List Section}

/-- A file that has a table has every beginning of it. -/
theorem HasTable.of_append (h : HasTable e header (front ++ back) file) :
    HasTable e header front file := by
  obtain ⟨hbegins, hoffset, ⟨rest, hrest⟩, hfits, hinside⟩ := h
  refine ⟨hbegins, hoffset, ⟨back.flatMap (Section.bytes e) ++ rest, ?_⟩,
    fun s hs => hfits s (List.mem_append_left _ hs), ?_⟩
  · rw [hrest, List.flatMap_append, List.append_assoc]
  · rw [List.length_append, Nat.add_mul] at hinside
    omega

/-- A table that is read is one that the file has, as long as is declared; there is always a
    first entry. -/
theorem sections_eq_ok (h : sections file = .ok table) : table = []
    ∨ ∃ e header, HasTable e header table file ∧ table.length = max 1 (header.declared table) := by
  rw [sections, Looking.sections] at h
  obtain ⟨read, hread, h⟩ := Looking.run_bind_eq_ok h
  obtain ⟨header, hbegins, hheader⟩ := Looking.header_eq_ok hread
  rw [hheader] at h
  generalize read.encoding = e at hbegins h
  rw [Looking.table] at h
  dsimp only at h
  by_cases hoffset : header.sectionOffset = 0
  · rw [if_pos hoffset] at h
    cases h
    exact Or.inl rfl
  by_cases hbehind : file.length < header.sectionOffset
  · rw [if_neg hoffset, if_pos hbehind] at h
    cases h
  rw [if_neg hoffset, if_neg hbehind] at h
  obtain ⟨first, hfirst, h⟩ := Looking.run_bind_eq_ok h
  generalize hcount : (if header.sectionCount = 0 then first.size.toNat
    else header.sectionCount) = count at h
  split at h
  · cases h
  obtain ⟨others, hothers, h⟩ := Looking.run_bind_eq_ok h
  cases h
  obtain ⟨hfits, rest, hplaced⟩ := Looking.entry_eq_ok hfirst
  have hbehindFirst := drop_of_placed hplaced
  rw [Section.length_bytes] at hbehindFirst
  obtain ⟨hlength, hall, behind, hrest⟩ := Looking.entries_eq_ok hothers
  have hstored : file.drop header.sectionOffset
      = (first :: others).flatMap (Section.bytes e) ++ behind := by
    rw [hplaced, ← hbehindFirst, hrest, List.flatMap_cons, List.append_assoc]
  have hinside := congrArg List.length hstored
  rw [List.length_drop, List.length_append, Section.length_flatMap_bytes] at hinside
  refine Or.inr ⟨e, header, ⟨hbegins, hoffset, ⟨behind, hstored⟩,
    List.forall_mem_cons.2 ⟨hfits, hall⟩, by omega⟩, ?_⟩
  have hdeclared : header.declared (first :: others) = count := hcount
  rw [List.length_cons, hlength, hdeclared]
  omega

end ExecTruth.Elf
