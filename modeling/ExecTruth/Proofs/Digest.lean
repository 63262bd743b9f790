import ExecTruth.Digest
import ExecTruth.Capture.Rich

/-! # Digests fit — the bytes of a digest are as many as a capture has room for

    A digest is written in hexadecimal, two digits for each byte, and every digit is one
    byte of UTF-8.  So it has 64 bytes whatever the message was (`length_encode_ofBytes`),
    and a capture of a binary never fails for its digest. -/

namespace ExecTruth

namespace Text

/-- A text is encoded character by character. -/
theorem Utf8.encode_ofList (l : List Char) :
    Utf8.encode (String.ofList l) = l.flatMap String.utf8EncodeChar := by
  show (String.ofList l).toByteArray.data.toList = _
  rw [String.toByteArray_ofList, List.utf8Encode]
  simp

/-- Texts are encoded one behind the other. -/
theorem Utf8.encode_append (s t : String) :
    Utf8.encode (s ++ t) = Utf8.encode s ++ Utf8.encode t := by
  simp [Utf8.encode]

/-- A text of characters that are one byte each has as many bytes as characters. -/
theorem Utf8.length_encode_ofList {l : List Char} (h : ∀ c ∈ l, c.utf8Size = 1) :
    (Utf8.encode (String.ofList l)).length = l.length := by
  rw [encode_ofList]
  induction l with
  | nil => rfl
  | cons c rest ih =>
      obtain ⟨hc, hrest⟩ := List.forall_mem_cons.1 h
      rw [List.flatMap_cons, List.length_append, ih hrest, String.length_utf8EncodeChar, hc,
        List.length_cons, Nat.add_comm]

/-- A hexadecimal digit takes one byte. -/
theorem utf8Size_hexDigitChar {n : Nat} (h : n < 16) : (hexDigitChar n).utf8Size = 1 := by
  revert n
  decide

/-- Bytes in hexadecimal have two bytes for each. -/
theorem length_encode_hexBytes (bytes : List UInt8) :
    (Utf8.encode (hexBytes bytes)).length = 2 * bytes.length := by
  rw [hexBytes, Utf8.length_encode_ofList]
  · induction bytes with
    | nil => rfl
    | cons b rest ih =>
        rw [List.flatMap_cons, List.length_append, ih]
        show 2 + 2 * rest.length = 2 * (rest.length + 1)
        omega
  · intro c hc
    obtain ⟨b, -, hc⟩ := List.mem_flatMap.1 hc
    have hb : b.toNat < 256 := b.toNat_lt
    -- a byte has two digits, and either is one byte of the text
    rcases List.mem_cons.1 hc with rfl | hc
    · exact utf8Size_hexDigitChar (by omega)
    · rw [List.mem_singleton.1 hc]
      exact utf8Size_hexDigitChar (by omega)

end Text

namespace Digest

/-- A digest has 64 bytes, whatever it is the digest of. -/
theorem length_encode_ofBytes (message : List UInt8) :
    (Text.Utf8.encode (ofBytes message)).length = 64 := by
  rw [ofBytes, Text.length_encode_hexBytes, List.length_flatMap]
  simp [State.words, Word.toBig]

/-- A capture has room for it. -/
theorem fits_ofBytes (message : List UInt8) :
    (Text.Utf8.encode (ofBytes message)).length ≤ RichCapture.maxDigest := by
  rw [length_encode_ofBytes]
  decide

end Digest

end ExecTruth
