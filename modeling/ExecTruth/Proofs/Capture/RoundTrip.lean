import ExecTruth.Capture.Rich
import ExecTruth.Proofs.SortedMap
import ExecTruth.Proofs.Stream.Readers
import Mathlib.Data.Fintype.Card

/-! # Rich captures read back — what is written is what is read, and nothing less will do

    The reader of rich captures is exact on what the writer writes (`exact_parse`):
    each field is, and `Exact.bind` puts the fields together.  From this come the
    round trip in front of any further bytes, and the fault of every source that
    ends too early, wherever the end falls (`parse_emit_whole_and_cut`).

    A digest must fit its length field, and the records must be as many as their
    count field can say; a table of all 2 ^ 64 offsets would have one too many. -/

namespace ExecTruth

/-! ## Text and faults -/

/-- The bytes of a text are decoded as that text. -/
@[simp] theorem Text.Utf8.decode_encode (s : String) :
    Text.Utf8.decode (Text.Utf8.encode s) = .ok s := by
  have hbytes : (Text.Utf8.encode s).toByteArray = s.toByteArray := by
    apply ByteArray.ext
    simp [Text.Utf8.encode]
  rw [Text.Utf8.decode, hbytes, String.fromUTF8?, dif_pos s.isValidUTF8]
  rfl

/-- A fault that is no early end is shown as it is. -/
theorem CaptureFault.ofIo_ne_digestTooLong (fault : IoFault) (size : Nat) :
    ofIo fault ≠ .digestTooLong size := by
  cases fault <;> exact nofun

/-- Of all faults of reading, only an early end has a name of its own in a capture. -/
theorem CaptureFault.ofIo_of_ne {fault : IoFault} (h : ∀ message, fault ≠ .endedEarly message) :
    ofIo fault = .io fault := by
  cases fault with
  | endedEarly message => exact absurd rfl (h message)
  | _ => rfl

namespace RichCapture

open Reader

/-- The records are as many as their count field can say, as those of any table are that
    fits into an address space. -/
def Countable (c : RichCapture) : Prop := c.table.size < Word.capacity 8

instance (c : RichCapture) : Decidable c.Countable :=
  inferInstanceAs (Decidable (c.table.size < Word.capacity 8))

/-- Eight bytes count up to 2 ^ 64. -/
example : Word.capacity 8 = 18446744073709551616 := by decide

/-- A table that lacks one offset has few enough records. -/
theorem countable_of_lacking {c : RichCapture} {o : Int64} (ho : ¬ c.table.contains o = true) :
    c.Countable := by
  have hnodup : (o :: c.table.keys).Nodup :=
    List.nodup_cons.2 ⟨fun hmem => ho (SortedMap.mem_keys_iff.1 hmem), c.table.nodup_keys⟩
  have hplace : Function.Injective fun k : Int64 => k.toBitVec.toFin :=
    fun a b hab => Int64.toBitVec_inj.1 (BitVec.toFin_inj.1 hab)
  have hcard := (hnodup.map hplace).length_le_card
  rw [List.length_map, List.length_cons, SortedMap.length_keys, Fintype.card_fin] at hcard
  exact hcard

/-! ## Fields and records -/

/-- A field is read off as it stands. -/
theorem exact_field {n : Nat} {bytes : List UInt8} (h : bytes.length = n) :
    Exact .ofShortage (field n) bytes bytes where
  whole {s tail} hs := by
    subst h
    obtain ⟨rest, hrest, htail, hfault⟩ := Source.take_append hs
    exact ⟨rest, by rw [field, hrest]; rfl, htail, hfault⟩
  cut {s} hs hne := by
    have hlt : s.bytes.length < n := by
      have hne' : s.bytes.length ≠ bytes.length := fun heq => hne (hs.eq_of_length heq)
      have hle := hs.length_le
      omega
    rw [field, Source.take_of_short hlt]
    rfl

@[simp] theorem length_encodeRecord (e : Int64 × UInt8) : (encodeRecord e).length = 9 := by
  simp [encodeRecord]

/-- A record is read as it was written. -/
@[simp] theorem decodeRecord_encodeRecord (e : Int64 × UInt8) :
    decodeRecord (encodeRecord e) = e := by
  have hlen : (Word.encodeOffset e.1).length = 8 := Word.length_encodeOffset e.1
  rw [decodeRecord, encodeRecord, ← hlen, List.take_left, List.drop_left,
    Word.decodeOffset_encodeOffset]
  rfl

/-- Records are read one after the other behind those seen. -/
theorem exact_readRecords (l seen : List (Int64 × UInt8)) :
    Exact .ofShortage (readRecords l.length seen) (l.flatMap encodeRecord)
      (.ofListFirst (seen.reverse ++ l)) := by
  -- the records that were read are put in front of `seen`, the last one first
  induction l generalizing seen with
  | nil =>
      rw [List.append_nil]
      exact Exact.pure _
  | cons e r ih =>
      refine Exact.bind (exact_field (length_encodeRecord e)) ?_
      show Exact _ (readRecords r.length (decodeRecord (encodeRecord e) :: seen)) _ _
      rw [decodeRecord_encodeRecord]
      have h := ih (e :: seen)
      rw [List.reverse_cons, List.append_assoc, List.singleton_append] at h
      exact h

/-! ## The whole capture -/

/-- The bytes of a digest, a load base and records, which need not be those of a table. -/
def layOut (digest : String) (base : Int64) (records : List (Int64 × UInt8)) : List UInt8 :=
  let digest := Text.Utf8.encode digest
  magic ++ version :: Word.toLittle 2 digest.length ++ digest ++ Word.encodeOffset base
    ++ Word.toLittle 8 records.length ++ records.flatMap encodeRecord

/-- A capture is laid out with the records of its table. -/
theorem encode_eq_layOut (c : RichCapture) :
    c.encode = layOut c.digest c.base c.table.entries := rfl

/-- The fields in the order they are read. -/
theorem layOut_eq_fields (digest : String) (base : Int64) (records : List (Int64 × UInt8)) :
    layOut digest base records = magic ++ ([version]
      ++ (Word.toLittle 2 (Text.Utf8.encode digest).length ++ (Text.Utf8.encode digest
      ++ (Word.encodeOffset base
      ++ (Word.toLittle 8 records.length ++ records.flatMap encodeRecord))))) := by
  simp [layOut]

/-- Reading is exact on what is laid out, and of one offset the first record counts. -/
theorem exact_layOut {digest : String} (base : Int64) {records : List (Int64 × UInt8)}
    (hdigest : (Text.Utf8.encode digest).length ≤ maxDigest)
    (hcount : records.length < Word.capacity 8) :
    Exact .ofShortage parse (layOut digest base records) ⟨digest, base, .ofListFirst records⟩ := by
  have hsize : Word.ofLittle (Word.toLittle 2 (Text.Utf8.encode digest).length)
      = (Text.Utf8.encode digest).length := by
    rw [Word.ofLittle_toLittle]
    exact Nat.mod_eq_of_lt (Nat.lt_succ_of_le hdigest)
  have hrecords : Word.ofLittle (Word.toLittle 8 records.length) = records.length := by
    rw [Word.ofLittle_toLittle]
    exact Nat.mod_eq_of_lt hcount
  rw [layOut_eq_fields]
  -- field by field, each is read back as it was laid out
  refine Exact.bind (exact_field rfl) ?_
  simp only [ne_eq, not_true_eq_false, if_false]
  refine Exact.bind (exact_field rfl) ?_
  simp only [not_true_eq_false, if_false]
  refine Exact.bind (exact_field (Word.length_toLittle 2 _)) ?_
  refine Exact.bind (exact_field hsize.symm) ?_
  have hdecode : (Text.Utf8.decode (Text.Utf8.encode digest)).mapError CaptureFault.badDigest
      = .ok digest := by
    rw [Text.Utf8.decode_encode]
    rfl
  simp only [hdecode]
  refine Exact.bind (exact_field (Word.length_encodeOffset base)) ?_
  dsimp only
  refine Exact.bind (exact_field (Word.length_toLittle 8 _)) ?_
  dsimp only
  rw [hrecords, Word.decodeOffset_encodeOffset, ← List.append_nil (records.flatMap encodeRecord)]
  refine Exact.bind (exact_readRecords records []) ?_
  exact Exact.pure (⟨digest, base, .ofListFirst records⟩ : RichCapture)

/-- Reading is exact on what is written. -/
theorem exact_parse {c : RichCapture} (hdigest : (Text.Utf8.encode c.digest).length ≤ maxDigest)
    (hcount : c.Countable) : Exact .ofShortage parse c.encode c := by
  have hexact := exact_layOut c.base hdigest hcount
  rw [SortedMap.ofListFirst_entries] at hexact
  exact hexact

/-- A capture whose digest fits is written to its end. -/
theorem emit_of_fits {c : RichCapture} (h : (Text.Utf8.encode c.digest).length ≤ maxDigest) :
    c.emit = ⟨c.encode, none⟩ := if_neg (Nat.not_lt.2 h)

/-- A digest that is too long for its field is told before anything is written. -/
theorem emit_of_long_digest {c : RichCapture}
    (hlong : maxDigest < (Text.Utf8.encode c.digest).length) :
    c.emit = ⟨[], some (.digestTooLong (Text.Utf8.encode c.digest).length)⟩ := if_pos hlong

/-- Only a digest that does not fit keeps a capture from being written, and then nothing of
    it is. -/
theorem emit_fault_eq_some {c : RichCapture} {fault : CaptureFault}
    (hfault : c.emit.fault = some fault) :
    fault = .digestTooLong (Text.Utf8.encode c.digest).length
      ∧ maxDigest < (Text.Utf8.encode c.digest).length ∧ c.emit.bytes = [] := by
  by_cases hlong : maxDigest < (Text.Utf8.encode c.digest).length
  · rw [emit_of_long_digest hlong] at hfault ⊢
    exact ⟨(Option.some.inj hfault).symm, hlong, rfl⟩
  · rw [emit_of_fits (Nat.le_of_not_lt hlong)] at hfault
    cases hfault

/-- **ROUND TRIP.** A capture is written, and what is written reads back as that
    capture in front of any tail, however the source is cut, and leaves the tail.  A
    source that ends anywhere inside it lacks bytes, and one that fails there shows
    its own fault, unless that fault says that its bytes ended or that it was only
    interrupted. -/
theorem parse_emit_whole_and_cut (c : RichCapture)
    (hdigest : (Text.Utf8.encode c.digest).length ≤ maxDigest) (hcount : c.Countable) :
    c.emit.outcome = .ok () ∧
    (∀ (s : Source) (tail : List UInt8), s.bytes = c.emit.bytes ++ tail →
      ∃ rest, parse s = .ok (c, rest) ∧ rest.bytes = tail ∧ rest.fault = s.fault) ∧
    ∀ s : Source, s.bytes <+: c.emit.bytes → s.bytes ≠ c.emit.bytes →
      (s.fault = none → parse s = .error .notEnoughBytes) ∧
      (∀ message, s.fault = some (.endedEarly message) → parse s = .error .notEnoughBytes) ∧
      ∀ fault, s.fault = some fault → (∀ message, fault ≠ .endedEarly message) →
        (∀ message, fault ≠ .reported "Interrupted" message) → parse s = .error (.io fault) := by
  have hexact := exact_parse hdigest hcount
  rw [emit_of_fits hdigest]
  refine ⟨rfl, fun s tail h => hexact.whole h, fun s h hne => ?_⟩
  -- any cut is a shortage; only the fault of the stream tells how it is called
  have hcut := hexact.cut h hne
  refine ⟨fun hs => ?_, fun message hs => ?_, fun fault hs hearly _ => ?_⟩
  · rw [hcut, Source.shortage, hs]
    rfl
  · rw [hcut, Source.shortage, hs]
    rfl
  · rw [hcut, Source.shortage, hs, CaptureFault.ofShortage, CaptureFault.ofIo_of_ne hearly]

/-- Two records on either side of zero, cut inside the digest and in the middle of a
    record, with three more bytes behind them. -/
theorem parse_emit_signed_records :
    let c : RichCapture := ⟨"né", -1, .ofList [(16, 3), (-5, 200)]⟩
    let cut : Source :=
      ⟨[c.encode.take 12, (c.encode.drop 12).take 23, c.encode.drop 35 ++ [1, 2, 3]], none⟩
    (Text.Utf8.encode c.digest).length ≤ maxDigest ∧ c.Countable ∧
    ∃ rest, parse cut = .ok (c, rest) ∧ rest.bytes = [1, 2, 3] ∧ rest.fault = none :=
  ⟨by decide, by decide,
    (parse_emit_whole_and_cut _ (by decide) (by decide)).2.1 _ _ (by decide)⟩

end RichCapture

end ExecTruth
