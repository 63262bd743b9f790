import ExecTruth.Proofs.Capture.Layout

/-! # The canonical form of rich captures — bytes that are read and then written

    The reader accepts more than the writer writes: records in any order, several of one
    offset, and further bytes behind them.  Each stage of the reader gives back the bytes
    that it took (`readMark_eq_ok`, `readDigest_eq_ok`, `readHeader_eq_ok`,
    `readRecords_eq_ok`), so all that is accepted is a layout of the capture's digest and
    base with SOME list of records, in front of what is left (`laidOut_of_parse`).

    The writer lays out the same digest and base with the listing of the table.  A layout
    tells its records (`recordsIn_layOut`), so the bytes written are the bytes read exactly
    if the records were that listing, in ascending order of signed offsets.  The bytes that
    a capture is written as stand for all the bytes that are read as this capture
    (`canonical_of_parse`). -/

namespace ExecTruth.RichCapture

open Reader

variable {s rest : Source} {c : RichCapture} {digest : String} {base : Int64}
  {records : List (Int64 × UInt8)}

/-! ## What the stages of the reader took -/

/-- The bytes that a field was read as stand in front of what is left. -/
theorem field_eq_ok {n : Nat} {bytes : List UInt8} (h : field n s = .ok (bytes, rest)) :
    bytes.length = n ∧ s.bytes = bytes ++ rest.bytes := by
  refine Source.take_eq_ok ?_
  unfold field at h
  cases htake : s.take n with
  | ok front =>
      rw [htake] at h
      cases h
      rfl
  | error short =>
      rw [htake] at h
      exact nomatch h

/-- What is accepted begins with the magic bytes and the version. -/
theorem readMark_eq_ok (h : readMark s = .ok rest) :
    s.bytes = magic ++ version :: rest.bytes := by
  rw [readMark_eq] at h
  obtain ⟨⟨start, mid⟩, hstart, h⟩ := bind_eq_ok h
  obtain ⟨-, hs⟩ := field_eq_ok hstart
  by_cases hmagic : start ≠ magic
  · simp only [if_pos hmagic] at h
    exact nomatch h
  simp only [if_neg hmagic] at h
  obtain ⟨⟨v, behind⟩, hv, h⟩ := bind_eq_ok h
  obtain ⟨-, hmid⟩ := field_eq_ok hv
  by_cases hversion : v ≠ [version]
  · simp only [if_pos hversion] at h
    exact nomatch h
  simp only [if_neg hversion] at h
  cases h
  rw [hs, hmid, not_not.1 hmagic, not_not.1 hversion]
  rfl

/-- The length of a digest that was read is the number in front of it, so it fits there. -/
theorem readDigest_eq_ok (h : readDigest s = .ok (digest, rest)) :
    (Text.Utf8.encode digest).length ≤ maxDigest
      ∧ s.bytes = Word.toLittle 2 (Text.Utf8.encode digest).length
        ++ (Text.Utf8.encode digest ++ rest.bytes) := by
  rw [readDigest_eq] at h
  obtain ⟨⟨size, mid⟩, hsize, h⟩ := bind_eq_ok h
  obtain ⟨⟨bytes, behind⟩, hbytes, h⟩ := bind_eq_ok h
  obtain ⟨text, htext, h⟩ := bind_eq_ok h
  obtain ⟨htwo, hs⟩ := field_eq_ok hsize
  obtain ⟨hlength, hmid⟩ := field_eq_ok hbytes
  have hencode : Text.Utf8.encode text = bytes := by
    refine Text.Utf8.decode_eq_ok_iff.1 ?_
    cases hdecode : Text.Utf8.decode bytes with
    | ok decoded =>
        rw [hdecode] at htext
        cases htext
        rfl
    | error fault =>
        rw [hdecode] at htext
        exact nomatch htext
  have hle : Word.ofLittle size < Word.capacity 2 := htwo ▸ Word.ofLittle_lt size
  have hmax : Word.capacity 2 = maxDigest + 1 := rfl
  cases h
  constructor
  · rw [hencode, hlength]
    omega
  · rw [hencode, hlength, ← htwo, Word.toLittle_ofLittle, ← hmid, ← hs]

/-- An accepted header is the bytes of a digest, a load base and a count that fit their fields. -/
theorem readHeader_eq_ok {count : Nat} (h : readHeader s = .ok ((digest, base, count), rest)) :
    (Text.Utf8.encode digest).length ≤ maxDigest ∧ count < Word.capacity 8
      ∧ s.bytes = magic ++ version :: Word.toLittle 2 (Text.Utf8.encode digest).length
        ++ Text.Utf8.encode digest ++ Word.encodeOffset base ++ Word.toLittle 8 count
        ++ rest.bytes := by
  rw [readHeader_eq] at h
  obtain ⟨start, hmark, h⟩ := bind_eq_ok h
  obtain ⟨⟨text, mid⟩, hdigest, h⟩ := bind_eq_ok h
  obtain ⟨⟨baseBytes, next⟩, hbase, h⟩ := bind_eq_ok h
  obtain ⟨⟨countBytes, body⟩, hcount, h⟩ := bind_eq_ok h
  cases h
  obtain ⟨hfits, hstart⟩ := readDigest_eq_ok hdigest
  obtain ⟨hbaseLength, hmid⟩ := field_eq_ok hbase
  obtain ⟨hcountLength, hnext⟩ := field_eq_ok hcount
  have hcountBytes : Word.toLittle 8 (Word.ofLittle countBytes) = countBytes := by
    rw [← hcountLength, Word.toLittle_ofLittle]
  refine ⟨hfits, hcountLength ▸ Word.ofLittle_lt countBytes, ?_⟩
  rw [readMark_eq_ok hmark, hstart, hmid, hnext, Word.encodeOffset_decodeOffset hbaseLength,
    hcountBytes]
  simp only [List.append_assoc, List.cons_append]

/-- Nine bytes are the bytes of the record that they are read as. -/
theorem encodeRecord_decodeRecord {bytes : List UInt8} (h : bytes.length = 9) :
    encodeRecord (decodeRecord bytes) = bytes := by
  have hoffset : (bytes.take 8).length = 8 := by
    rw [List.length_take]
    omega
  have hlength : (bytes.drop 8).length = 1 := by
    rw [List.length_drop]
    omega
  obtain ⟨l, hl⟩ := List.length_eq_one_iff.1 hlength
  rw [decodeRecord, encodeRecord, Word.encodeOffset_decodeOffset hoffset, hl]
  show bytes.take 8 ++ [l] = bytes
  rw [← hl, List.take_append_drop]

/-- The records that were read are those whose bytes were taken, in their order. -/
theorem readRecords_eq_ok {count : Nat} {seen : List (Int64 × UInt8)} {table : InstructionTable}
    (h : readRecords count seen s = .ok (table, rest)) :
    ∃ records, records.length = count ∧ s.bytes = records.flatMap encodeRecord ++ rest.bytes
      ∧ table = .ofListFirst (seen.reverse ++ records) := by
  -- what is read is put in front of `seen`, which is therefore read backwards
  induction count generalizing s seen with
  | zero =>
      cases h
      exact ⟨[], rfl, rfl, by rw [List.append_nil]⟩
  | succ count ih =>
      rw [readRecords_succ] at h
      obtain ⟨⟨record, mid⟩, hrecord, h⟩ := bind_eq_ok h
      obtain ⟨hlength, hs⟩ := field_eq_ok hrecord
      obtain ⟨records, hcount, hmid, htable⟩ := ih h
      refine ⟨decodeRecord record :: records, by rw [List.length_cons, hcount], ?_, ?_⟩
      · rw [hs, hmid, List.flatMap_cons, encodeRecord_decodeRecord hlength, List.append_assoc]
      · rw [htable, List.reverse_cons, List.append_assoc, List.singleton_append]

/-- All that is accepted is laid out, with the capture's digest and base and records that
    make its table. -/
theorem laidOut_of_parse (h : parse s = .ok (c, rest)) :
    ∃ records, (Text.Utf8.encode c.digest).length ≤ maxDigest
      ∧ records.length < Word.capacity 8
      ∧ s.bytes = layOut c.digest c.base records ++ rest.bytes
      ∧ c.table = .ofListFirst records := by
  rw [parse_eq] at h
  obtain ⟨⟨⟨digest, base, count⟩, body⟩, hheader, h⟩ := bind_eq_ok h
  obtain ⟨⟨table, left⟩, hrecords, h⟩ := bind_eq_ok h
  cases h
  obtain ⟨hdigest, hcount, hs⟩ := readHeader_eq_ok hheader
  obtain ⟨records, rfl, hbody, htable⟩ := readRecords_eq_ok hrecords
  refine ⟨records, hdigest, hcount, ?_, htable⟩
  rw [hs, hbody, layOut]
  simp only [List.append_assoc, List.cons_append]

/-! ## The records of a layout -/

/-- The records that stand in bytes, in the order they stand there. -/
def recordsIn (b : List UInt8) : List (Int64 × UInt8) :=
  (List.range (recordCount b)).map (recordIn (27 + digestSize b) b)

/-- The length that stands in front of the digest is its own. -/
theorem digestSize_layOut (tail : List UInt8)
    (hdigest : (Text.Utf8.encode digest).length ≤ maxDigest) :
    digestSize (layOut digest base records ++ tail) = (Text.Utf8.encode digest).length := by
  have hsize := Word.length_toLittle 2 (Text.Utf8.encode digest).length
  rw [layOut_eq_fields, digestSize]
  show Word.ofLittle (((Word.toLittle 2 _ ++ _) ++ tail).take 2) = _
  rw [List.append_assoc, List.take_left' hsize, Word.ofLittle_toLittle]
  exact Nat.mod_eq_of_lt (Nat.lt_succ_of_le hdigest)

/-- Behind the load base of a layout are the count and the records. -/
theorem drop_layOut (digest : String) (base : Int64) (records : List (Int64 × UInt8))
    (tail : List UInt8) :
    (layOut digest base records ++ tail).drop (19 + (Text.Utf8.encode digest).length)
      = Word.toLittle 8 records.length ++ (records.flatMap encodeRecord ++ tail) := by
  have hfront : (magic ++ version :: Word.toLittle 2 (Text.Utf8.encode digest).length
      ++ Text.Utf8.encode digest ++ Word.encodeOffset base).length
      = 19 + (Text.Utf8.encode digest).length := by
    have hmagic : magic.length = 8 := rfl
    simp only [List.length_append, List.length_cons, Word.length_toLittle,
      Word.length_encodeOffset, hmagic]
    omega
  rw [layOut, List.append_assoc, List.append_assoc]
  exact List.drop_left' hfront

/-- Records are found one after the other at every ninth byte. -/
theorem map_range_decodeRecord (records : List (Int64 × UInt8)) (tail : List UInt8) :
    ((List.range records.length).map fun i =>
      decodeRecord (((records.flatMap encodeRecord ++ tail).drop (9 * i)).take 9)) = records := by
  induction records with
  | nil => rfl
  | cons e r ih =>
      have hlength := length_encodeRecord e
      rw [List.length_cons, List.range_succ_eq_map, List.map_cons, List.map_map, List.flatMap_cons,
        List.append_assoc]
      -- the first record is at the front, and the others as far behind it as it is long
      refine congrArg₂ List.cons ?_ ?_
      · show decodeRecord ((encodeRecord e ++ _).take 9) = e
        rw [List.take_left' hlength, decodeRecord_encodeRecord]
      · refine Eq.trans (List.map_congr_left fun i _ => ?_) ih
        show decodeRecord (((encodeRecord e ++ _).drop (9 * (i + 1))).take 9) = _
        rw [Nat.mul_succ, Nat.add_comm, ← List.drop_drop, List.drop_left' hlength]

/-- A layout tells the records that it was made of. -/
theorem recordsIn_layOut (tail : List UInt8)
    (hdigest : (Text.Utf8.encode digest).length ≤ maxDigest)
    (hcount : records.length < Word.capacity 8) :
    recordsIn (layOut digest base records ++ tail) = records := by
  have hcountBytes := Word.length_toLittle 8 records.length
  have hrecordCount : recordCount (layOut digest base records ++ tail) = records.length := by
    rw [recordCount, digestSize_layOut tail hdigest, drop_layOut, List.take_left' hcountBytes,
      Word.ofLittle_toLittle]
    exact Nat.mod_eq_of_lt hcount
  have hbody : (layOut digest base records ++ tail).drop (27 + (Text.Utf8.encode digest).length)
      = records.flatMap encodeRecord ++ tail := by
    rw [show 27 + (Text.Utf8.encode digest).length = 19 + (Text.Utf8.encode digest).length + 8 by
      omega, ← List.drop_drop, drop_layOut, List.drop_left' hcountBytes]
  rw [recordsIn, hrecordCount, digestSize_layOut tail hdigest]
  refine Eq.trans (List.map_congr_left fun i _ => ?_) (map_range_decodeRecord records tail)
  show decodeRecord _ = decodeRecord _
  rw [← List.drop_drop, hbody]

/-! ## Written again -/

/-- A table that was read has no more records than could be counted. -/
theorem countable_of_records (hcount : records.length < Word.capacity 8)
    (htable : c.table = .ofListFirst records) : c.Countable := by
  unfold Countable
  rw [htable]
  exact Nat.lt_of_le_of_lt (SortedMap.size_ofListFirst_le records) hcount

/-- A capture is laid out as its table was read if the records were the table's listing. -/
theorem encode_eq_layOut_iff (hdigest : (Text.Utf8.encode c.digest).length ≤ maxDigest)
    (hcount : records.length < Word.capacity 8) (htable : c.table = .ofListFirst records) :
    c.encode = layOut c.digest c.base records
      ↔ records.Pairwise fun a b => a.1.toInt < b.1.toInt := by
  refine Iff.trans ?_ SortedMap.entries_ofListFirst_eq_iff
  rw [← htable, encode_eq_layOut]
  constructor
  · intro h
    have hlisting : recordsIn (layOut c.digest c.base c.table.entries ++ []) = c.table.entries :=
      recordsIn_layOut [] hdigest (countable_of_records hcount htable)
    rw [h, recordsIn_layOut [] hdigest hcount] at hlisting
    exact hlisting.symm
  · intro h
    rw [h]

/-- Captures that can be read back are told apart by their bytes. -/
theorem eq_of_encode_eq {c' : RichCapture}
    (hdigest : (Text.Utf8.encode c.digest).length ≤ maxDigest)
    (hdigest' : (Text.Utf8.encode c'.digest).length ≤ maxDigest) (hcount : c.Countable)
    (hcount' : c'.Countable) (h : c'.encode = c.encode) : c' = c := by
  have hbytes : (Source.ofBytes c.encode).bytes = c.encode ++ [] := rfl
  obtain ⟨left, hparse, -⟩ := (exact_parse hdigest hcount).whole hbytes
  rw [← h] at hbytes hparse
  obtain ⟨left', hparse', -⟩ := (exact_parse hdigest' hcount').whole hbytes
  rw [hparse] at hparse'
  cases hparse'
  rfl

/-- **CANONICAL FORM.** What is read can be written again.  The bytes are then the same as
    those that were read exactly if the records stood in ascending order of signed offsets;
    they are always read as the same capture, with nothing left; and two captures that were
    read are written as the same bytes exactly if they are the same. -/
theorem canonical_of_parse (s rest : Source) (c : RichCapture) (h : parse s = .ok (c, rest)) :
    let consumed := s.bytes.take (s.bytes.length - rest.bytes.length)
    s.bytes = consumed ++ rest.bytes
    ∧ c.emit.outcome = .ok ()
    ∧ (c.emit.bytes = consumed
      ↔ (recordsIn s.bytes).Pairwise fun a b => a.1.toInt < b.1.toInt)
    ∧ (∀ t : Source, t.bytes = c.emit.bytes →
      ∃ left, parse t = .ok (c, left) ∧ left.bytes = [])
    ∧ ∀ (s' rest' : Source) (c' : RichCapture), parse s' = .ok (c', rest') →
      (c'.emit.bytes = c.emit.bytes ↔ c' = c) := by
  intro consumed
  obtain ⟨records, hdigest, hcount, hs, htable⟩ := laidOut_of_parse h
  have hcountable := countable_of_records hcount htable
  have hconsumed : consumed = layOut c.digest c.base records := by
    show s.bytes.take _ = _
    rw [hs, List.length_append, Nat.add_sub_cancel, List.take_left]
  have hread : ∀ t : Source, t.bytes = c.emit.bytes →
      ∃ left, parse t = .ok (c, left) ∧ left.bytes = [] := by
    intro t ht
    rw [emit_of_fits hdigest, ← List.append_nil c.encode] at ht
    obtain ⟨left, hparse, hleft, -⟩ := (exact_parse hdigest hcountable).whole ht
    exact ⟨left, hparse, hleft⟩
  refine ⟨by rw [hconsumed, ← hs], ?_, ?_, hread, ?_⟩
  · rw [emit_of_fits hdigest]
    rfl
  · -- what was consumed is laid out in the order of its records, what is emitted in that of offsets
    rw [hconsumed, hs, recordsIn_layOut rest.bytes hdigest hcount, emit_of_fits hdigest]
    exact encode_eq_layOut_iff hdigest hcount htable
  · intro s' rest' c' h'
    constructor
    · intro hsame
      obtain ⟨records', hdigest', hcount', -, htable'⟩ := laidOut_of_parse h'
      rw [emit_of_fits hdigest, emit_of_fits hdigest'] at hsame
      exact eq_of_encode_eq hdigest hdigest' hcountable (countable_of_records hcount' htable') hsame
    · intro hsame
      rw [hsame]

/-- Records out of order, two of them for one offset, in front of one more byte: the bytes that
    are written are others, and are read as the same capture. -/
theorem canonical_of_parse_repeated_offset :
    let s : Source := .ofBytes (layOut "d" (-4096) [(32, 4), (-16, 2), (32, 7)] ++ [9])
    let c : RichCapture := ⟨"d", -4096, .ofListFirst [(32, 4), (-16, 2), (32, 7)]⟩
    ∃ rest, parse s = .ok (c, rest) ∧ rest.bytes = [9]
      ∧ c.emit.bytes ≠ s.bytes.take (s.bytes.length - rest.bytes.length)
      ∧ ∃ left, parse (.ofBytes c.emit.bytes) = .ok (c, left) ∧ left.bytes = [] := by
  intro s c
  have hdigest : (Text.Utf8.encode "d").length ≤ maxDigest := by decide
  have hs : s.bytes = layOut "d" (-4096) [(32, 4), (-16, 2), (32, 7)] ++ [9] := by decide
  obtain ⟨rest, hparse, hrest, -⟩ := (exact_layOut (-4096) hdigest (by decide)).whole hs
  obtain ⟨-, -, hsame, hagain, -⟩ := canonical_of_parse s rest c hparse
  refine ⟨rest, hparse, hrest, fun h => ?_, hagain (.ofBytes c.emit.bytes) (by decide)⟩
  exact absurd (hsame.1 h) (by decide)

end ExecTruth.RichCapture
