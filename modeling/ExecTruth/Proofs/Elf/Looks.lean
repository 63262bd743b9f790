import ExecTruth.Proofs.Elf.StoredHeaders

/-! # Looks — which bytes of a file are looked at for its load base

    The sections of a file are found by looks at parts of it (`Looking.sections`), and nothing
    else of it is seen but its length.  No look goes beyond the end (`inside_sections`).

    The looks go through the file header, field by field, and then from one section header to
    the next (`KeepsTo`).  How many headers are declared does not matter: no more are looked at
    than the file has room for, and the first (`looks_sections`). -/

namespace ExecTruth

namespace Elf

namespace Looking

variable {α β : Type}

/-- The parts of a file that are looked at. -/
def looks (file : List UInt8) : Looking α → List Span
  | done _ | fail _ => []
  | look span next => span :: (next (span.bytesOf file)).looks file

variable {file : List UInt8} {r : Looking α} {next : α → Looking β}

/-- For what is known already nothing is looked at. -/
theorem looks_ofExcept (file : List UInt8) (r : Except HeaderFault α) :
    (ofExcept r).looks file = [] := by
  cases r <;> rfl

/-- The second looks behind the first, if the first gives something. -/
theorem looks_bind_of_ok {a : α} (h : r.run file = .ok a) (next : α → Looking β) :
    (r >>= next).looks file = r.looks file ++ (next a).looks file := by
  induction r with
  | done a' =>
      cases h
      rfl
  | fail fault => exact nomatch h
  | look span after ih => exact congrArg (span :: ·) (ih _ h)

/-- Behind a fault there are no looks. -/
theorem looks_bind_of_error {fault : HeaderFault} (h : r.run file = .error fault)
    (next : α → Looking β) : (r >>= next).looks file = r.looks file := by
  induction r with
  | done a => exact nomatch h
  | fail fault' => rfl
  | look span after ih => exact congrArg (span :: ·) (ih _ h)

/-! ## Looks inside the file -/

/-- No look goes beyond the end of the file. -/
def Inside (file : List UInt8) (r : Looking α) : Prop :=
  ∀ span ∈ r.looks file, span.start + span.size ≤ file.length

/-- One behind the other stays inside if both do, whatever the first gives. -/
theorem Inside.bind (hr : r.Inside file) (hnext : ∀ a, (next a).Inside file) :
    (r >>= next).Inside file := by
  intro span hspan
  cases hrun : r.run file with
  | error fault =>
      rw [looks_bind_of_error hrun] at hspan
      exact hr span hspan
  | ok a =>
      rw [looks_bind_of_ok hrun] at hspan
      rcases List.mem_append.1 hspan with hspan | hspan
      · exact hr span hspan
      · exact hnext a span hspan

/-- Where nothing is looked at, no look goes beyond the end. -/
theorem inside_of_no_looks (h : r.looks file = []) : r.Inside file := by
  rw [Inside, h]
  exact nofun

theorem inside_pure (a : α) : (pure a : Looking α).Inside file := inside_of_no_looks rfl

theorem inside_fail (fault : HeaderFault) : (fail fault : Looking α).Inside file :=
  inside_of_no_looks rfl

/-- One look stays inside if its part ends there. -/
theorem inside_look {span : Span} {next : List UInt8 → Looking α}
    (hspan : span.start + span.size ≤ file.length)
    (hnext : (next (span.bytesOf file)).Inside file) : (look span next).Inside file :=
  List.forall_mem_cons.2 ⟨hspan, hnext⟩

/-! ## Looks that are known beforehand -/

/-- The looks are the given ones, or the first of them if there is a fault. -/
structure KeepsTo (file : List UInt8) (spans : List Span) (r : Looking α) : Prop where
  front : r.looks file <+: spans
  whole : ∀ a, r.run file = .ok a → r.looks file = spans

/-- One behind the other keeps to the looks of both, if the second does for what the first
    gives. -/
theorem KeepsTo.bind {spans others : List Span} (hr : r.KeepsTo file spans)
    (hnext : ∀ a, r.run file = .ok a → (next a).KeepsTo file others) :
    (r >>= next).KeepsTo file (spans ++ others) := by
  -- a fault ends the looks early; otherwise all of `spans` have been looked at
  cases hrun : r.run file with
  | error fault =>
      refine ⟨?_, fun b hb => ?_⟩
      · rw [looks_bind_of_error hrun]
        exact hr.front.trans (List.prefix_append _ _)
      · rw [run_bind, hrun] at hb
        exact nomatch hb
  | ok a =>
      have hlooks := looks_bind_of_ok hrun next
      rw [hr.whole a hrun] at hlooks
      refine ⟨?_, fun b hb => ?_⟩
      · rw [hlooks]
        exact (List.prefix_append_right_inj _).2 (hnext a hrun).front
      · rw [run_bind_of_ok hrun] at hb
        rw [hlooks, (hnext a hrun).whole b hb]

/-- What is given at once keeps to no looks. -/
theorem keepsTo_pure (a : α) : (pure a : Looking α).KeepsTo file [] :=
  ⟨List.prefix_rfl, fun _ _ => rfl⟩

/-- A fault keeps to any looks, as none of them is taken. -/
theorem keepsTo_fail (fault : HeaderFault) (spans : List Span) :
    (fail fault : Looking α).KeepsTo file spans :=
  ⟨List.nil_prefix, fun _ h => nomatch h⟩

/-- A look keeps to its part and to what is looked at behind it. -/
theorem KeepsTo.look {span : Span} {spans : List Span} {next : List UInt8 → Looking α}
    (h : (next (span.bytesOf file)).KeepsTo file spans) :
    (look span next).KeepsTo file (span :: spans) :=
  ⟨(List.prefix_append_right_inj [span]).2 h.front, fun a ha => congrArg _ (h.whole a ha)⟩

/-- What is given already keeps to no looks. -/
theorem keepsTo_ofExcept (file : List UInt8) (r : Except HeaderFault α) :
    (ofExcept r).KeepsTo file [] := by
  have hnone := looks_ofExcept file r
  exact ⟨hnone ▸ List.prefix_rfl, fun _ _ => hnone⟩

/-- What is made of the outcome does not change the looks. -/
theorem KeepsTo.map {spans : List Span} (hr : r.KeepsTo file spans) (f : α → β) :
    (r >>= fun a => pure (f a)).KeepsTo file spans := by
  have h : (r >>= fun a => pure (f a)).KeepsTo file (spans ++ []) :=
    hr.bind fun a _ => keepsTo_pure (f a)
  rwa [List.append_nil] at h

/-! ## Fields -/

/-- The parts that fields are in. -/
def spansOf : (start : Nat) → (sizes : List Nat) → List Span
  | _, [] => []
  | start, size :: sizes => ⟨start, size⟩ :: spansOf (start + size) sizes

/-- A field is only looked at if it ends inside the file. -/
theorem inside_fields (e : Encoding) (file : List UInt8) (start : Nat) (sizes : List Nat) :
    (fields e file.length start sizes).Inside file := by
  induction sizes generalizing start with
  | nil => exact inside_pure []
  | cons size sizes ih =>
      have hfield : (field e file.length start size).Inside file := by
        rw [field]
        split
        · exact inside_fail _
        · next hlong => exact inside_look (Nat.le_of_not_lt hlong) (inside_pure _)
      exact hfield.bind fun n => (ih (start + size)).bind fun others => inside_pure _

/-- Fields are looked at in their order, up to the first that is cut off. -/
theorem keepsTo_fields (e : Encoding) (file : List UInt8) (start : Nat) (sizes : List Nat) :
    (fields e file.length start sizes).KeepsTo file (spansOf start sizes) := by
  -- each field begins where the one in front of it ends
  induction sizes generalizing start with
  | nil => exact keepsTo_pure []
  | cons size sizes ih =>
      have hfield : (field e file.length start size).KeepsTo file [⟨start, size⟩] := by
        rw [field]
        split
        · exact keepsTo_fail _ _
        · exact .look (keepsTo_pure (e.value _))
      exact hfield.bind fun n _ => (ih (start + size)).map (n :: ·)

/-! ## Section headers -/

/-- The parts that the fields of section headers are in. -/
def entrySpans (e : Encoding) : (count start : Nat) → List Span
  | 0, _ => []
  | count + 1, start =>
      spansOf start e.sectionSizes ++ entrySpans e count (start + e.sectionHeaderSize)

/-- A section header that goes beyond the end is not looked at there. -/
theorem inside_entry (e : Encoding) (file : List UInt8) (start : Nat) :
    (entry e file.length start).Inside file :=
  (inside_fields e file start e.sectionSizes).bind fun _ => inside_pure _

/-- However many section headers are asked for, they are looked at inside the file only. -/
theorem inside_entries (e : Encoding) (file : List UInt8) (count start : Nat) :
    (entries e file.length count start).Inside file := by
  induction count generalizing start with
  | zero => exact inside_pure []
  | succ count ih =>
      exact (inside_entry e file start).bind fun _ => (ih _).bind fun _ => inside_pure _

/-- A section header is looked at field by field. -/
theorem keepsTo_entry (e : Encoding) (file : List UInt8) (start : Nat) :
    (entry e file.length start).KeepsTo file (spansOf start e.sectionSizes) :=
  (keepsTo_fields e file start e.sectionSizes).map Section.ofNumbers

/-- Section headers are looked at one behind the other. -/
theorem keepsTo_entries (e : Encoding) (file : List UInt8) (count start : Nat) :
    (entries e file.length count start).KeepsTo file (entrySpans e count start) := by
  induction count generalizing start with
  | zero => exact keepsTo_pure []
  | succ count ih =>
      exact (keepsTo_entry e file start).bind fun first _ =>
        (ih (start + e.sectionHeaderSize)).map (first :: ·)

/-! ## File headers -/

/-- A file that is too short for an identification is not looked at. -/
theorem inside_identification (file : List UInt8) : (identification file.length).Inside file := by
  rw [identification]
  split
  · exact inside_fail _
  · next hlong =>
      have hstart : 0 + identSize ≤ file.length := by omega
      exact inside_look hstart (inside_of_no_looks (looks_ofExcept file _))

/-- There is one look at the identification. -/
theorem keepsTo_identification (file : List UInt8) :
    (identification file.length).KeepsTo file [⟨0, identSize⟩] := by
  rw [identification]
  split
  · exact keepsTo_fail _ _
  · exact (keepsTo_ofExcept file _).look

/-- The fields of the file header are looked at inside the file. -/
theorem inside_header (file : List UInt8) : (header file.length).Inside file :=
  (inside_identification file).bind fun e =>
    (inside_fields e file identSize e.headerSizes).bind fun _ => inside_pure _

/-- The looks go through the identification and the fields of the file header. -/
theorem keepsTo_header (file : List UInt8) : ∃ e,
    (header file.length).KeepsTo file (⟨0, identSize⟩ :: spansOf identSize e.headerSizes)
    ∧ ∀ read, (header file.length).run file = .ok read → read.encoding = e := by
  obtain ⟨e, he⟩ : ∃ e, ∀ e', (identification file.length).run file = .ok e' → e' = e := by
    cases (identification file.length).run file with
    | error fault => exact ⟨⟨.bits64, .little⟩, fun _ h => nomatch h⟩
    | ok e => exact ⟨e, fun e' h => (Except.ok.inj h).symm⟩
  refine ⟨e, (keepsTo_identification file).bind fun e' he' => ?_, fun read hread => ?_⟩
  · rw [he e' he']
    exact (keepsTo_fields e file identSize e.headerSizes).map (Header.ofNumbers e)
  · rw [header] at hread
    obtain ⟨e', he', hread⟩ := run_bind_eq_ok hread
    obtain ⟨ns, -, hread⟩ := run_bind_eq_ok hread
    cases hread
    rw [Header.encoding_ofNumbers, he e' he']

/-! ## Section tables -/

/-- A table is looked at inside the file, wherever the header says that it is. -/
theorem inside_table (file : List UInt8) (header : Header) :
    (table file.length header).Inside file := by
  rw [table]
  dsimp only
  split
  · exact inside_pure []
  split
  · exact inside_fail _
  refine (inside_entry header.encoding file header.sectionOffset).bind fun first => ?_
  generalize (if header.sectionCount = 0 then first.size.toNat else header.sectionCount) = count
  split
  · exact inside_fail _
  · exact (inside_entries header.encoding file _ _).bind fun others => inside_pure _

/-- However many section headers are declared, few are looked at. -/
theorem looks_table (file : List UInt8) (header : Header) :
    ∃ count ≤ file.length / header.encoding.sectionHeaderSize + 1,
      (table file.length header).looks file
        <+: entrySpans header.encoding count header.sectionOffset := by
  obtain ⟨e, offset, declared⟩ := header
  rw [table]
  dsimp only
  by_cases hnone : offset = 0
  · rw [if_pos hnone]
    exact ⟨0, Nat.zero_le _, List.nil_prefix⟩
  by_cases hbehind : file.length < offset
  · rw [if_neg hnone, if_pos hbehind]
    exact ⟨0, Nat.zero_le _, List.nil_prefix⟩
  rw [if_neg hnone, if_neg hbehind]
  have hfirst := keepsTo_entry e file offset
  have hone : entrySpans e 1 offset = spansOf offset e.sectionSizes := List.append_nil _
  cases hrun : (entry e file.length offset).run file with
  | error fault =>
      rw [looks_bind_of_error hrun]
      exact ⟨1, Nat.le_add_left 1 _, hone ▸ hfirst.front⟩
  | ok first =>
      rw [looks_bind_of_ok hrun, hfirst.whole first hrun]
      -- the count is the declared one, or what the first entry says; it is refused if too great
      generalize (if declared = 0 then first.size.toNat else declared) = count
      by_cases htoo : file.length / e.sectionHeaderSize < count
      · rw [if_pos htoo]
        exact ⟨1, Nat.le_add_left 1 _, List.prefix_refl _⟩
      · rw [if_neg htoo]
        have hothers := (keepsTo_entries e file (count - 1)
          (offset + e.sectionHeaderSize)).map (first :: ·)
        exact ⟨count - 1 + 1, by omega, (List.prefix_append_right_inj _).2 hothers.front⟩

/-- The sections of a file are found by looks inside it. -/
theorem inside_sections (file : List UInt8) : (sections file.length).Inside file :=
  (inside_header file).bind fun read => inside_table file read

/-- The looks go through the identification and the fields of the file header, and then through
    section headers one behind the other; the file has room for these, or there is one. -/
theorem looks_sections (file : List UInt8) : ∃ e start count,
    count ≤ file.length / e.sectionHeaderSize + 1
    ∧ (sections file.length).looks file
      <+: (⟨0, identSize⟩ :: spansOf identSize e.headerSizes) ++ entrySpans e count start
    ∧ ∀ read, Header.read file = .ok read → e = read.encoding ∧ start = read.sectionOffset := by
  obtain ⟨e, hkeeps, hencoding⟩ := keepsTo_header file
  rw [sections, Header.read]
  -- without a header no entry is looked at, so any encoding and no entries will do
  cases hrun : (header file.length).run file with
  | error fault =>
      rw [looks_bind_of_error hrun]
      refine ⟨e, 0, 0, Nat.zero_le _, hkeeps.front.trans (List.prefix_append _ _), ?_⟩
      intro header hheader
      cases hheader
  | ok read =>
      obtain ⟨count, hcount, htable⟩ := looks_table file read
      rw [← hencoding read hrun] at hkeeps
      refine ⟨read.encoding, read.sectionOffset, count, hcount, ?_, ?_⟩
      · rw [looks_bind_of_ok hrun, hkeeps.whole read hrun]
        exact (List.prefix_append_right_inj _).2 htable
      · intro header hheader
        cases hheader
        exact ⟨rfl, rfl⟩

end Looking

end Elf

/-! ## Load bases -/

open Elf

/-- A load base rests on a section header of code: the file has it behind headers of no code,
    and no header is beyond the declared ones but the first. -/
structure RestsOn (file : List UInt8) (b : Int64) (e : Encoding) (header : FileHeader)
    (front : List Section) (s : Section) : Prop where
  table : HasTable e header (front ++ [s]) file
  before : ∀ q ∈ front, ¬ (q.Has Section.allocatedFlag ∧ q.Has Section.executableFlag)
  code : s.Has Section.allocatedFlag ∧ s.Has Section.executableFlag
  sum : b.toInt + s.offset.toNat ≡ s.address.toNat [ZMOD 2 ^ 64]
  declared : front = [] ∨ front.length < header.declared (front ++ [s])

/-- The first of some entries tells as much as the first of all. -/
theorem Elf.FileHeader.declared_append (header : FileHeader) {table : List Section}
    (h : table ≠ []) (back : List Section) :
    header.declared (table ++ back) = header.declared table := by
  obtain ⟨first, others, rfl⟩ := List.exists_cons_of_ne_nil h
  rfl

/-- The load base rests on the header of the file and on the section headers up to the first code
    section. -/
theorem loadBase_restsOn {file : List UInt8} {table : List Section} (h : sections file = .ok table)
    {s : Section} (hs : Section.FirstCode table s) :
    ∃ b e header front, loadBase file = .ok b ∧ RestsOn file b e header front s := by
  have hbase := loadBase_of_firstCode h hs
  obtain ⟨front, back, rfl, hcode, hfront⟩ := hs
  rcases sections_eq_ok h with hnone | ⟨e, header, htable, hlength⟩
  · exact absurd hnone (List.append_ne_nil_of_right_ne_nil front (List.cons_ne_nil s back))
  have hne : front ++ [s] ≠ [] := List.append_ne_nil_of_right_ne_nil front (List.cons_ne_nil s [])
  -- the headers up to the code section are a beginning of the table
  rw [List.append_cons] at htable hlength
  rw [header.declared_append hne, List.length_append, List.length_append, List.length_singleton]
    at hlength
  refine ⟨_, e, header, front, hbase, htable.of_append, hfront, hcode,
    toInt_sub_add_modEq s.address s.offset, ?_⟩
  by_cases hfirst : front = []
  · exact Or.inl hfirst
  · have hpos := List.length_pos_of_ne_nil hfirst
    exact Or.inr (by omega)

/-- **LOAD BASES OF ARBITRARY BYTES**.  Of any bytes, a load base is given or a failure.  One that
    is given rests on a section header of code that the bytes have where their header says,
    behind headers of no code.  The headers are found by looks inside the bytes, and however
    many are declared, there are looks at no more than there is room for, and one. -/
theorem loadBase_found_in_file (file : List UInt8) :
    ((∃ b e header front s, loadBase file = .ok b ∧ RestsOn file b e header front s)
      ∨ loadBase file = .error .noCode ∨ ∃ fault, loadBase file = .error (.headers fault))
    ∧ (Looking.sections file.length).run file = sections file
    ∧ (Looking.sections file.length).Inside file
    ∧ ∃ e start count, count ≤ file.length / e.sectionHeaderSize + 1
      ∧ (Looking.sections file.length).looks file
        <+: (⟨0, identSize⟩ :: Looking.spansOf identSize e.headerSizes)
          ++ Looking.entrySpans e count start
      ∧ ∀ read, Header.read file = .ok read → e = read.encoding ∧ start = read.sectionOffset := by
  refine ⟨?_, rfl, Looking.inside_sections file, Looking.looks_sections file⟩
  cases hsections : sections file with
  | error fault =>
      right; right
      exact ⟨fault, by rw [loadBase, hsections]⟩
  | ok table =>
      cases hfind : table.find? (·.isCode) with
      | none =>
          right; left
          rw [loadBase, hsections]
          dsimp only
          rw [hfind]
      | some s =>
          obtain ⟨b, e, header, front, hbase, hrests⟩ :=
            loadBase_restsOn hsections (Section.find?_isCode_eq_some_iff.1 hfind)
          exact Or.inl ⟨b, e, header, front, s, hbase, hrests⟩

/-- A section of code that is the first entry, and says that there are no entries. -/
private def lonelyCode : Section := ⟨0, 1, 6, 0x1000, 0x80001000, 0, 0, 0, 16, 0⟩

/-- A file that ends behind its first entry, which is of code; neither its header nor the entry
    counts any. -/
theorem loadBase_found_in_uncounted_file :
    let header : FileHeader := ⟨2, 8, 1, 0, 0, 52, 0, 52, 0, 0, 7, 0, 0⟩
    let file := fileOf ⟨.bits32, .big⟩ header [lonelyCode]
    loadBase file = .ok (-0x80000000)
    ∧ (∃ e header front s, RestsOn file (-0x80000000) e header front s)
    ∧ (Looking.sections file.length).Inside file := by
  intro header file
  have hbase : loadBase file = .ok (-0x80000000) := by decide +kernel
  obtain ⟨hfound | hnone | ⟨fault, hfault⟩, -, hinside, -⟩ := loadBase_found_in_file file
  · obtain ⟨b, e, header, front, s, hb, hrests⟩ := hfound
    cases hb.symm.trans hbase
    exact ⟨hbase, ⟨e, header, front, s, hrests⟩, hinside⟩
  · exact nomatch hnone.symm.trans hbase
  · exact nomatch hfault.symm.trans hbase

end ExecTruth
