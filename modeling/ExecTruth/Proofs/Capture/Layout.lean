import ExecTruth.Proofs.Capture.RoundTrip

/-! # The layout of rich captures — which bytes are one, and what is wrong with the others

    The reader is described over every byte string, and not only over what the
    writer writes.  Each field has its place in the bytes: the length of the digest
    stands at byte 9 and the digest at byte 11, and where the digest ends follow the
    load base, the number of records and the records.  A source BEHIND `k` bytes of a
    string hands out the field at `k` (`Behind.field_eq`) or lacks bytes
    (`Behind.field_short`), and the reader is followed from there: over the magic bytes
    and the version (`readMark`), the digest (`readDigest`), up to the records
    (`readHeader`), and over the records, which are read in any order
    (`readRecords_of_enough`).

    How many records the reader takes off is counted beside it (`recordsTaken`).  It has
    read just these, and either it is done or there is none to take behind them
    (`readRecords_taken`, `parse_taken`).  No more are taken than are there, however many
    there are said to be (`recordsTaken_eq`).

    `parse_by_layout` puts it together: the order in which faults are found, and what
    is read where there is none. -/

namespace ExecTruth

/-- Bytes decode as a text if they are the bytes of that text. -/
theorem Text.Utf8.decode_eq_ok_iff {bytes : List UInt8} {text : String} :
    decode bytes = .ok text ↔ encode text = bytes := by
  constructor
  · intro h
    unfold decode String.fromUTF8? at h
    by_cases hvalid : bytes.toByteArray.IsValidUTF8
    · rw [dif_pos hvalid] at h
      rw [← Except.ok.inj h]
      show bytes.toByteArray.data.toList = bytes
      simp
    · rw [dif_neg hvalid] at h
      exact nomatch h
  · intro h
    rw [← h, decode_encode]

/-- No two texts have the same bytes: decoding tells them apart. -/
theorem Text.Utf8.encode_injective : Function.Injective encode := by
  intro a b hab
  have hdecode := decode_encode a
  rw [hab, decode_encode] at hdecode
  exact (Except.ok.inj hdecode).symm

/-- Bytes that are those of no text have a first fault. -/
theorem Text.Utf8.decode_of_no_text {bytes : List UInt8} (h : ¬ ∃ text, encode text = bytes) :
    decode bytes = .error (firstFault bytes) := by
  cases hdecode : decode bytes with
  | ok text => exact absurd ⟨text, decode_eq_ok_iff.1 hdecode⟩ h
  | error fault =>
      unfold decode at hdecode
      split at hdecode
      · exact nomatch hdecode
      · exact hdecode.symm

namespace RichCapture

variable {s : Source} {b : List UInt8} {k n : Nat}

/-! ## The places of the fields -/

/-- The length that the digest is said to have. -/
def digestSize (b : List UInt8) : Nat := Word.ofLittle ((b.drop 9).take 2)

/-- The bytes of the digest. -/
def digestBytes (b : List UInt8) : List UInt8 := (b.drop 11).take (digestSize b)

/-- The load base. -/
def baseIn (b : List UInt8) : Int64 := Word.decodeOffset ((b.drop (11 + digestSize b)).take 8)

/-- The number of records that there are said to be. -/
def recordCount (b : List UInt8) : Nat := Word.ofLittle ((b.drop (19 + digestSize b)).take 8)

/-- The `i`th record behind `k` bytes. -/
def recordIn (k : Nat) (b : List UInt8) (i : Nat) : Int64 × UInt8 :=
  decodeRecord ((b.drop (k + 9 * i)).take 9)

/-! ## Sources behind a part of the bytes -/

/-- The source has the bytes `b` but for the first `k`, and then ends. -/
structure Behind (s : Source) (k : Nat) (b : List UInt8) : Prop where
  bytes : s.bytes = b.drop k
  plain : s.fault = none

/-- A field that is there is handed out, and the source is left behind it. -/
theorem Behind.field_eq (h : Behind s k b) (hn : k + n ≤ b.length) :
    ∃ rest, field n s = .ok ((b.drop k).take n, rest) ∧ Behind rest (k + n) b := by
  have hlen : ((b.drop k).take n).length = n := by
    rw [List.length_take, List.length_drop]
    omega
  have hsplit : s.bytes = (b.drop k).take n ++ (b.drop k).drop n := by
    rw [List.take_append_drop, h.bytes]
  obtain ⟨rest, htake, hrest, hfault⟩ := Source.take_append hsplit
  rw [hlen] at htake
  refine ⟨rest, ?_, ?_, hfault.trans h.plain⟩
  · rw [field, htake]
    rfl
  · rw [hrest, List.drop_drop]

/-- A field that the bytes end in front of or inside is not. -/
theorem Behind.field_short (h : Behind s k b) (hn : b.length - k < n) :
    field n s = .error .notEnoughBytes := by
  have hlt : s.bytes.length < n := by
    rw [h.bytes, List.length_drop]
    exact hn
  rw [field, Source.take_of_short hlt, Source.shortage, h.plain]
  rfl

/-! ## Records -/

/-- The number of records taken off a source by a reader of `count` records. -/
def recordsTaken : (count : Nat) → Source → Nat
  | 0, _ => 0
  | count + 1, s =>
      match field 9 s with
      | .ok (_, rest) => recordsTaken count rest + 1
      | .error _ => 0

/-- One record is read, then the others, and what was read stands in front of `seen`. -/
theorem readRecords_succ (count : Nat) (seen : List (Int64 × UInt8)) (s : Source) :
    readRecords (count + 1) seen s
      = field 9 s >>= fun (record, rest) => readRecords count (decodeRecord record :: seen) rest :=
  rfl

/-- The records that are there are read in their order behind those seen. -/
theorem readRecords_of_enough {count : Nat} (seen : List (Int64 × UInt8)) (h : Behind s k b)
    (hcount : 9 * count ≤ b.length - k) :
    ∃ rest, readRecords count seen s
        = .ok (.ofListFirst (seen.reverse ++ (List.range count).map (recordIn k b)), rest)
      ∧ Behind rest (k + 9 * count) b := by
  induction count generalizing s k seen with
  | zero => exact ⟨s, by simp [readRecords], h⟩
  | succ count ih =>
      obtain ⟨mid, hfield, hmid⟩ := h.field_eq (n := 9) (by omega)
      obtain ⟨rest, hread, hrest⟩ := ih (recordIn k b 0 :: seen) hmid (by omega)
      -- seen from behind the first record, each of the others has a place less
      have hshift : (List.range count).map (recordIn (k + 9) b)
          = (List.range count).map (recordIn k b ∘ Nat.succ) := by
        refine List.map_congr_left fun i _ => ?_
        show decodeRecord _ = decodeRecord _
        rw [show k + 9 + 9 * i = k + 9 * (i + 1) by omega]
      refine ⟨rest, ?_, ?_⟩
      · rw [readRecords_succ, hfield, List.range_succ_eq_map, List.map_cons, List.map_map,
          ← hshift]
        show readRecords count (recordIn k b 0 :: seen) mid = _
        rw [hread, List.reverse_cons, List.append_assoc, List.singleton_append]
      · rw [show k + 9 * (count + 1) = k + 9 + 9 * count by omega]
        exact hrest

/-- The reader has read the records that are counted, and if it is to have more, it fails at
    the next with the fault of its field. -/
theorem readRecords_taken (count : Nat) (seen : List (Int64 × UInt8)) (s : Source) :
    ∃ table rest, readRecords (recordsTaken count s) seen s = .ok (table, rest)
      ∧ (recordsTaken count s = count
        ∨ recordsTaken count s < count
          ∧ ∃ fault, field 9 rest = .error fault ∧ readRecords count seen s = .error fault) := by
  -- the counter stops where the reader does: at a record that is not there, or behind the last
  induction count generalizing s seen with
  | zero => exact ⟨_, s, rfl, Or.inl rfl⟩
  | succ count ih =>
      cases hfield : field 9 s with
      | error fault =>
          have hnone : recordsTaken (count + 1) s = 0 := by
            rw [recordsTaken, hfield]
          rw [hnone, readRecords_succ, hfield]
          exact ⟨_, s, rfl, Or.inr ⟨Nat.succ_pos count, fault, hfield, rfl⟩⟩
      | ok read =>
          obtain ⟨record, behind⟩ := read
          have hone : recordsTaken (count + 1) s = recordsTaken count behind + 1 := by
            rw [recordsTaken, hfield]
          have hstep : ∀ n, readRecords (n + 1) seen s
              = readRecords n (decodeRecord record :: seen) behind := fun n => by
            rw [readRecords_succ, hfield]
            rfl
          obtain ⟨table, rest, hread, hend⟩ := ih (decodeRecord record :: seen) behind
          rw [hone, hstep, hstep]
          refine ⟨table, rest, hread, hend.imp (congrArg Nat.succ) ?_⟩
          exact fun ⟨hless, hfault⟩ => ⟨Nat.succ_lt_succ hless, hfault⟩

/-- No more records are taken off than are there, whatever the count. -/
theorem recordsTaken_eq {count : Nat} (h : Behind s k b) :
    recordsTaken count s = min count ((b.length - k) / 9) := by
  induction count generalizing s k with
  | zero => simp [recordsTaken]
  | succ count ih =>
      unfold recordsTaken
      by_cases hn : k + 9 ≤ b.length
      · obtain ⟨mid, hfield, hmid⟩ := h.field_eq hn
        simp only [hfield, ih hmid]
        omega
      · simp only [h.field_short (n := 9) (by omega)]
        omega

/-! ## The reader in stages -/

/-- Reads the magic bytes and the version. -/
def readMark (s : Source) : Except CaptureFault Source := do
  let (start, s) ← field 8 s
  if start ≠ magic then throw .invalidMagic
  let (v, s) ← field 1 s
  if v ≠ [version] then throw (.unsupportedVersion (v.headD 0))
  return s

/-- Reads the digest with its length in front of it. -/
def readDigest (s : Source) : Except CaptureFault (String × Source) := do
  let (size, s) ← field 2 s
  let (digest, s) ← field (Word.ofLittle size) s
  let digest ← (Text.Utf8.decode digest).mapError .badDigest
  return (digest, s)

/-- Reads up to the records: the digest, the load base and the number of records. -/
def readHeader (s : Source) : Except CaptureFault ((String × Int64 × Nat) × Source) := do
  let s ← readMark s
  let (digest, s) ← readDigest s
  let (base, s) ← field 8 s
  let (count, s) ← field 8 s
  return ((digest, Word.decodeOffset base, Word.ofLittle count), s)

/-- A capture is its header and as many records as that says. -/
theorem parse_eq (s : Source) :
    parse s = readHeader s >>= fun ((digest, base, count), body) =>
      readRecords count [] body >>= fun (table, rest) => .ok (⟨digest, base, table⟩, rest) := by
  unfold parse readHeader readMark readDigest
  simp only [bind_assoc, pure_bind]
  refine congrArg (field 8 s >>= ·) (funext fun start => ?_)
  -- the fault of the magic bytes leaves all binds at once, and so does that of the version
  by_cases hstart : start.1 ≠ magic
  · simp only [if_pos hstart]
    rfl
  simp only [if_neg hstart, bind_assoc]
  refine congrArg (field 1 start.2 >>= ·) (funext fun v => ?_)
  by_cases hv : v.1 ≠ [version]
  · simp only [if_pos hv]
    rfl
  simp only [if_neg hv, pure_bind]
  rfl

/-- The mark is eight bytes and one more, compared in this order. -/
theorem readMark_eq (s : Source) :
    readMark s = field 8 s >>= fun (start, s) =>
      if start ≠ magic then .error .invalidMagic
      else field 1 s >>= fun (v, s) =>
        if v ≠ [version] then .error (.unsupportedVersion (v.headD 0)) else .ok s := rfl

/-- The digest is read by the length in front of it, and decoded only when it is whole. -/
theorem readDigest_eq (s : Source) :
    readDigest s = field 2 s >>= fun (size, s) =>
      field (Word.ofLittle size) s >>= fun (digest, s) =>
        (Text.Utf8.decode digest).mapError .badDigest >>= fun digest => .ok (digest, s) := rfl

/-- Behind the mark and the digest there are two fields of eight bytes each. -/
theorem readHeader_eq (s : Source) :
    readHeader s = readMark s >>= fun s => readDigest s >>= fun (digest, s) =>
      field 8 s >>= fun (base, s) => field 8 s >>= fun (count, s) =>
        .ok ((digest, Word.decodeOffset base, Word.ofLittle count), s) := rfl

/-! ## The magic bytes and the version -/

/-- With the magic bytes in front, the version decides. -/
theorem readMark_of_magic (h : Behind s 0 b) (hmagic : b.take 8 = magic) :
    ∃ mid, Behind mid 8 b ∧ readMark s = field 1 mid >>= fun (v, s) =>
      if v ≠ [version] then .error (.unsupportedVersion (v.headD 0)) else .ok s := by
  have hlen : 8 ≤ b.length := by
    have hshort := congrArg List.length hmagic
    rw [List.length_take] at hshort
    have hsize : magic.length = 8 := rfl
    omega
  obtain ⟨mid, hfield, hmid⟩ := h.field_eq (n := 8) (by omega)
  refine ⟨mid, hmid, ?_⟩
  rw [readMark_eq, hfield]
  show (if b.take 8 ≠ magic then _ else _) = _
  rw [if_neg (not_not_intro hmagic)]

/-- The version is read as a byte of its own. -/
theorem readMark_of_version {v : UInt8} (h : Behind s 0 b) (hmagic : b.take 8 = magic)
    (hv : b[8]? = some v) :
    ∃ rest, Behind rest 9 b
      ∧ readMark s = if v ≠ version then .error (.unsupportedVersion v) else .ok rest := by
  obtain ⟨hlen, hbyte⟩ := List.getElem?_eq_some_iff.1 hv
  obtain ⟨mid, hmid, hread⟩ := readMark_of_magic h hmagic
  obtain ⟨rest, hfield, hrest⟩ := hmid.field_eq (n := 1) (by omega)
  have hone : (b.drop 8).take 1 = [v] := by
    rw [List.drop_eq_getElem_cons hlen, hbyte]
    rfl
  refine ⟨rest, hrest, ?_⟩
  rw [hread, hfield, hone]
  show (if [v] ≠ [version] then _ else _) = _
  simp only [ne_eq, List.cons.injEq, and_true]
  rfl

/-- Fewer than eight bytes are too few, whatever they are. -/
theorem readMark_of_short (h : Behind s 0 b) (hlen : b.length < 8) :
    readMark s = .error .notEnoughBytes := by
  rw [readMark_eq, h.field_short (by omega)]
  rfl

/-- Other magic bytes are told before the version is looked at. -/
theorem readMark_of_other (h : Behind s 0 b) (hlen : 8 ≤ b.length) (hmagic : b.take 8 ≠ magic) :
    readMark s = .error .invalidMagic := by
  obtain ⟨mid, hfield, -⟩ := h.field_eq (n := 8) (by omega)
  rw [readMark_eq, hfield]
  show (if b.take 8 ≠ magic then _ else _) = _
  rw [if_pos hmagic]

/-- The magic bytes alone are too few. -/
theorem readMark_of_bare (h : Behind s 0 b) (hmagic : b.take 8 = magic) (hlen : b.length < 9) :
    readMark s = .error .notEnoughBytes := by
  obtain ⟨mid, hmid, hread⟩ := readMark_of_magic h hmagic
  rw [hread, hmid.field_short (by omega)]
  rfl

/-! ## The digest -/

/-- The bytes of the digest are read by their length, and then decoded. -/
theorem readDigest_of_enough (h : Behind s 9 b) (hlen : 11 + digestSize b ≤ b.length) :
    ∃ rest, Behind rest (11 + digestSize b) b
      ∧ readDigest s = (Text.Utf8.decode (digestBytes b)).mapError .badDigest
          >>= fun text => .ok (text, rest) := by
  obtain ⟨mid, hsize, hmid⟩ := h.field_eq (n := 2) (by omega)
  obtain ⟨rest, hbytes, hrest⟩ := hmid.field_eq hlen
  refine ⟨rest, hrest, ?_⟩
  rw [readDigest_eq, hsize]
  show (field (digestSize b) mid >>= _) = _
  rw [hbytes]
  rfl

/-- The digest is too short where its length is cut off, or its bytes are. -/
theorem readDigest_of_short (h : Behind s 9 b)
    (hlen : b.length < 11 ∨ b.length < 11 + digestSize b) :
    readDigest s = .error .notEnoughBytes := by
  rw [readDigest_eq]
  -- the length itself may be cut off, and then there is no digest to be short
  by_cases hn : 11 ≤ b.length
  · obtain ⟨mid, hsize, hmid⟩ := h.field_eq (n := 2) (by omega)
    rw [hsize]
    show (field (digestSize b) mid >>= _) = _
    rw [hmid.field_short (by omega)]
    rfl
  · rw [h.field_short (by omega)]
    rfl

/-! ## The header -/

/-- What is wrong in front of the records is wrong with the capture. -/
theorem parse_of_header_error {fault : CaptureFault} (h : readHeader s = .error fault) :
    parse s = .error fault := by
  rw [parse_eq, h]
  rfl

/-- What is wrong with the mark is wrong with the capture. -/
theorem parse_of_mark_error {fault : CaptureFault} (h : readMark s = .error fault) :
    parse s = .error fault := by
  refine parse_of_header_error ?_
  rw [readHeader_eq, h]
  rfl

/-- Behind the version, the digest decides. -/
theorem parse_of_digest_error {fault : CaptureFault} (h : Behind s 0 b)
    (hmagic : b.take 8 = magic) (hv : b[8]? = some version)
    (hdigest : ∀ mid, Behind mid 9 b → readDigest mid = .error fault) :
    parse s = .error fault := by
  obtain ⟨mid, hmid, hmark⟩ := readMark_of_version h hmagic hv
  refine parse_of_header_error ?_
  rw [readHeader_eq, hmark, if_neg (not_not_intro rfl)]
  show (readDigest mid >>= _) = _
  rw [hdigest mid hmid]
  rfl

/-- Behind the digest, the load base and the count are read. -/
theorem readHeader_of_digest {text : String} (h : Behind s 0 b) (hmagic : b.take 8 = magic)
    (hv : b[8]? = some version) (hlen : 11 + digestSize b ≤ b.length)
    (htext : Text.Utf8.encode text = digestBytes b) :
    ∃ mid, Behind mid (11 + digestSize b) b
      ∧ readHeader s = field 8 mid >>= fun (base, s) => field 8 s >>= fun (count, s) =>
          .ok ((text, Word.decodeOffset base, Word.ofLittle count), s) := by
  obtain ⟨start, hstart, hmark⟩ := readMark_of_version h hmagic hv
  obtain ⟨mid, hmid, hdigest⟩ := readDigest_of_enough hstart hlen
  refine ⟨mid, hmid, ?_⟩
  rw [readHeader_eq, hmark, if_neg (not_not_intro rfl)]
  show (readDigest start >>= _) = _
  rw [hdigest, Text.Utf8.decode_eq_ok_iff.2 htext]
  rfl

/-- Behind a digest that is a text, too few bytes are left for the load base or the count. -/
theorem readHeader_of_short {text : String} (h : Behind s 0 b) (hmagic : b.take 8 = magic)
    (hv : b[8]? = some version) (hlen : 11 + digestSize b ≤ b.length)
    (htext : Text.Utf8.encode text = digestBytes b) (hshort : b.length < 27 + digestSize b) :
    readHeader s = .error .notEnoughBytes := by
  obtain ⟨mid, hmid, hread⟩ := readHeader_of_digest h hmagic hv hlen htext
  rw [hread]
  -- either the load base is there and the count is cut off, or the load base is
  by_cases hn : 19 + digestSize b ≤ b.length
  · obtain ⟨next, hbase, hnext⟩ := hmid.field_eq (n := 8) (by omega)
    rw [hbase]
    show (field 8 next >>= _) = _
    rw [hnext.field_short (by omega)]
    rfl
  · rw [hmid.field_short (by omega)]
    rfl

/-- The header is read where it is whole, and what is left begins with the records. -/
theorem readHeader_of_enough {text : String} (h : Behind s 0 b) (hmagic : b.take 8 = magic)
    (hv : b[8]? = some version) (htext : Text.Utf8.encode text = digestBytes b)
    (hlen : 27 + digestSize b ≤ b.length) :
    ∃ body, readHeader s = .ok ((text, baseIn b, recordCount b), body)
      ∧ Behind body (27 + digestSize b) b := by
  obtain ⟨mid, hmid, hread⟩ := readHeader_of_digest h hmagic hv (by omega) htext
  obtain ⟨next, hbase, hnext⟩ := hmid.field_eq (n := 8) (by omega)
  obtain ⟨body, hcount, hbody⟩ := hnext.field_eq (n := 8) (by omega)
  rw [show 11 + digestSize b + 8 = 19 + digestSize b by omega] at hcount hbody
  rw [show 19 + digestSize b + 8 = 27 + digestSize b by omega] at hbody
  refine ⟨body, ?_, hbody⟩
  rw [hread, hbase]
  show (field 8 next >>= _) = _
  rw [hcount]
  rfl

/-! ## The whole capture -/

/-- The number of records taken off a source by the reader of captures. -/
def recordsTakenBy (s : Source) : Nat :=
  match readHeader s with
  | .ok ((_, _, count), body) => recordsTaken count body
  | .error _ => 0

/-- Behind a header, the reader of captures has read the records that are counted; these are
    all, or it fails at the next. -/
theorem parse_taken {digest : String} {base : Int64} {count : Nat} {body : Source}
    (h : readHeader s = .ok ((digest, base, count), body)) :
    ∃ table rest, readRecords (recordsTakenBy s) [] body = .ok (table, rest)
      ∧ (recordsTakenBy s = count ∧ parse s = .ok (⟨digest, base, table⟩, rest)
        ∨ recordsTakenBy s < count
          ∧ ∃ fault, field 9 rest = .error fault ∧ parse s = .error fault) := by
  have htaken : recordsTakenBy s = recordsTaken count body := by
    rw [recordsTakenBy, h]
  obtain ⟨table, rest, hread, hend⟩ := readRecords_taken count [] body
  rw [htaken, parse_eq, h]
  refine ⟨table, rest, hread, ?_⟩
  rcases hend with hall | ⟨hless, fault, hfield, hfault⟩
  · refine Or.inl ⟨hall, ?_⟩
    show (readRecords count [] body >>= _) = _
    rw [hall] at hread
    rw [hread]
    rfl
  · refine Or.inr ⟨hless, fault, hfield, ?_⟩
    show (readRecords count [] body >>= _) = _
    rw [hfault]
    rfl

/-- Behind a header, as many records are taken off as are said to be there, or as there are. -/
theorem recordsTakenBy_eq {digest : String} {base : Int64} {count : Nat} {body : Source}
    (h : readHeader s = .ok ((digest, base, count), body)) (hbody : Behind body k b) :
    recordsTakenBy s = min count ((b.length - k) / 9) := by
  rw [recordsTakenBy, h]
  exact recordsTaken_eq hbody

/-- Among numbered pairs, a key has the value of the first one with that key. -/
theorem valueIn_map_range_eq_some_iff {f : Nat → Int64 × UInt8} {count : Nat} {o : Int64}
    {l : UInt8} :
    SortedMap.valueIn o ((List.range count).map f) = some l
      ↔ ∃ i < count, f i = (o, l) ∧ ∀ j < i, (f j).1 ≠ o := by
  induction count generalizing f with
  | zero => simp [SortedMap.valueIn]
  | succ count ih =>
      rw [List.range_succ_eq_map, List.map_cons, List.map_map, SortedMap.valueIn_cons]
      -- the first record decides if it has the offset; or else the others do, each a place further
      by_cases hkey : (f 0).1 = o
      · rw [if_pos (congrArg rank hkey), Option.some.injEq]
        constructor
        · intro hl
          exact ⟨0, Nat.succ_pos _, Prod.ext hkey hl, fun j hj => absurd hj (Nat.not_lt_zero j)⟩
        · rintro ⟨i, -, hi, hfirst⟩
          cases i with
          | zero => rw [hi]
          | succ i => exact absurd hkey (hfirst 0 (Nat.succ_pos i))
      · rw [if_neg fun hrank => hkey (Ranked.rank_inj hrank), ih]
        constructor
        · rintro ⟨i, hi, hfi, hfirst⟩
          refine ⟨i + 1, Nat.succ_lt_succ hi, hfi, fun j hj => ?_⟩
          cases j with
          | zero => exact hkey
          | succ j => exact hfirst j (Nat.lt_of_succ_lt_succ hj)
        · rintro ⟨i, hi, hfi, hfirst⟩
          cases i with
          | zero => exact absurd (congrArg Prod.fst hfi) hkey
          | succ i =>
              exact ⟨i, Nat.lt_of_succ_lt_succ hi, hfi,
                fun j hj => hfirst (j + 1) (Nat.succ_lt_succ hj)⟩

/-- **LAYOUT.** A source that ends plainly is judged by its bytes alone, and the first
    thing wrong with them is the fault: a magic number cut short or not the right one;
    no version, or another than 1; a digest that is cut short or no text; records that
    are fewer than the count says, which takes no more of them than there are.  Bytes
    with nothing wrong are a capture, whatever their records and the bytes behind
    them: an offset has the length of its first record, and what is behind the last
    record is left. -/
theorem parse_by_layout (s : Source) (hplain : s.fault = none) :
    let b := s.bytes
    let size := digestSize b
    let count := recordCount b
    (b.length < 8 → parse s = .error .notEnoughBytes) ∧
    (8 ≤ b.length → b.take 8 ≠ magic → parse s = .error .invalidMagic) ∧
    (b.take 8 = magic →
      (b.length < 9 → parse s = .error .notEnoughBytes) ∧
      (∀ v, b[8]? = some v → v ≠ 1 → parse s = .error (.unsupportedVersion v)) ∧
      (b[8]? = some 1 →
        (b.length < 11 ∨ b.length < 11 + size → parse s = .error .notEnoughBytes) ∧
        (11 + size ≤ b.length → (¬ ∃ text, Text.Utf8.encode text = digestBytes b) →
          parse s = .error (.badDigest (Text.Utf8.firstFault (digestBytes b)))) ∧
        ∀ text, 11 + size ≤ b.length → Text.Utf8.encode text = digestBytes b →
          (b.length < 27 + size ∨ b.length - 27 - size < 9 * count →
            parse s = .error .notEnoughBytes
            ∧ recordsTakenBy s ≤ (b.length - 27 - size) / 9) ∧
          (27 + size + 9 * count ≤ b.length →
            ∃ table rest, parse s = .ok (⟨text, baseIn b, table⟩, rest)
              ∧ rest.bytes = b.drop (27 + size + 9 * count)
              ∧ ∀ o l, table.find? o = some l
                ↔ ∃ i < count, recordIn (27 + size) b i = (o, l)
                  ∧ ∀ j < i, (recordIn (27 + size) b j).1 ≠ o))) := by
  intro b size count
  have hbehind : Behind s 0 b := ⟨rfl, hplain⟩
  refine ⟨fun hlen => parse_of_mark_error (readMark_of_short hbehind hlen),
    fun hlen hmagic => parse_of_mark_error (readMark_of_other hbehind hlen hmagic),
    fun hmagic => ⟨fun hlen => parse_of_mark_error (readMark_of_bare hbehind hmagic hlen),
      fun v hv hne => ?_, fun hv => ⟨fun hlen => ?_, fun hlen htext => ?_,
      fun text hlen htext => ⟨fun hshort => ?_, fun henough => ?_⟩⟩⟩⟩
  · obtain ⟨_, -, hmark⟩ := readMark_of_version hbehind hmagic hv
    refine parse_of_mark_error ?_
    rw [hmark]
    exact if_pos hne
  · exact parse_of_digest_error hbehind hmagic hv fun mid hmid => readDigest_of_short hmid hlen
  · refine parse_of_digest_error hbehind hmagic hv fun mid hmid => ?_
    obtain ⟨_, -, hread⟩ := readDigest_of_enough hmid hlen
    rw [hread, Text.Utf8.decode_of_no_text htext]
    rfl
  · -- the bytes end in front of the records, or among them
    by_cases hheader : b.length < 27 + size
    · have hread := readHeader_of_short hbehind hmagic hv hlen htext hheader
      refine ⟨parse_of_header_error hread, ?_⟩
      unfold recordsTakenBy
      rw [hread]
      exact Nat.zero_le _
    · obtain ⟨body, hread, hbody⟩ :=
        readHeader_of_enough hbehind hmagic hv htext (Nat.not_lt.1 hheader)
      have htaken := recordsTakenBy_eq hread hbody
      refine ⟨?_, by omega⟩
      obtain ⟨table, rest, hrecords, ⟨hall, -⟩ | ⟨hless, fault, hfield, hparse⟩⟩ :=
        parse_taken hread
      · omega
      · -- the reader stands behind the records that are there, and no record is left
        obtain ⟨rest', hrecords', hrest⟩ := readRecords_of_enough [] hbody
          (show 9 * recordsTakenBy s ≤ b.length - (27 + size) by omega)
        cases hrecords.symm.trans hrecords'
        rw [hrest.field_short (by omega)] at hfield
        cases hfield
        exact hparse
  · obtain ⟨body, hread, hbody⟩ := readHeader_of_enough hbehind hmagic hv htext (by omega)
    have hall : recordsTakenBy s = count := by
      have htaken := recordsTakenBy_eq hread hbody
      omega
    obtain ⟨rest, hrecords, hrest⟩ := readRecords_of_enough [] hbody
      (show 9 * count ≤ b.length - (27 + size) by omega)
    rw [List.reverse_nil, List.nil_append] at hrecords
    obtain ⟨table, rest', hrecords', ⟨-, hparse⟩ | ⟨hless, -⟩⟩ := parse_taken hread
    · rw [hall, hrecords] at hrecords'
      cases hrecords'
      refine ⟨_, rest, hparse, hrest.bytes, fun o l => ?_⟩
      rw [SortedMap.find?_ofListFirst]
      exact valueIn_map_range_eq_some_iff
    · omega

/-- Three records out of order, two of them for one offset, and one more byte. -/
private def outOfOrder : List UInt8 :=
  magic ++ [1] ++ Word.toLittle 2 1 ++ [0x64] ++ Word.encodeOffset (-4096) ++ Word.toLittle 8 3
    ++ [(32, 4), (-16, 2), (32, 7)].flatMap encodeRecord ++ [9]

/-- Cut inside the digest's length and inside a record, they are read as a capture, and
    the byte behind them is left. -/
theorem parse_by_layout_repeated_offset :
    let s : Source := ⟨[outOfOrder.take 10, (outOfOrder.drop 10).take 25, outOfOrder.drop 35], none⟩
    s.fault = none ∧
    ∃ table rest, parse s = .ok (⟨"d", -4096, table⟩, rest) ∧ rest.bytes = [9]
      ∧ table.find? 32 = some 4 := by
  intro s
  have hbytes : s.bytes = outOfOrder := by decide
  have hlayout := parse_by_layout s rfl
  rw [hbytes] at hlayout
  have hmagic : outOfOrder.take 8 = magic := by decide
  have hversion : outOfOrder[8]? = some 1 := by decide
  have hsize : digestSize outOfOrder = 1 := by decide
  have hcount : recordCount outOfOrder = 3 := by decide
  have hbase : baseIn outOfOrder = -4096 := by decide
  have hdigest : Text.Utf8.encode "d" = digestBytes outOfOrder := by decide
  simp only [hsize, hcount, hbase] at hlayout
  obtain ⟨table, rest, hparse, hrest, htable⟩ :=
    (((hlayout.2.2 hmagic).2.2 hversion).2.2 "d" (by decide) hdigest).2 (by decide)
  refine ⟨rfl, table, rest, hparse, hrest, (htable 32 4).2 ⟨0, by decide, by decide, ?_⟩⟩
  exact fun j hj => absurd hj (Nat.not_lt_zero j)

end RichCapture

end ExecTruth
