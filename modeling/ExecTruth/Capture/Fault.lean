import ExecTruth.IoFault
import ExecTruth.Stream.Source
import ExecTruth.Text.Utf8
import ExecTruth.Word.Offset

/-! # Capture faults — why a capture cannot be read or written

    A reader that runs out of bytes, or says that it did, is told apart from one
    that fails in another way. -/

namespace ExecTruth

/-- A failure to read or write a capture. -/
inductive CaptureFault where
  /-- The first bytes are not those of a rich capture. -/
  | invalidMagic
  /-- The version is not the one that is known. -/
  | unsupportedVersion (version : UInt8)
  /-- The bytes end inside a field. -/
  | notEnoughBytes
  /-- The digest is no text. -/
  | badDigest (fault : Text.Utf8.Fault)
  /-- The digest has more bytes than its length field can say. -/
  | digestTooLong (bytes : Nat)
  /-- An offset does not fit the word with the load base added. -/
  | addressOverflow (offset base : Int64)
  /-- Reading or writing failed. -/
  | io (fault : IoFault)
  deriving DecidableEq, Repr

namespace CaptureFault

/-- The fault of a capture that an I/O fault amounts to. -/
def ofIo : IoFault → CaptureFault
  | .endedEarly _ => .notEnoughBytes
  | fault => .io fault

/-- The fault of a capture that a source without enough bytes amounts to. -/
def ofShortage : Source.Shortage → CaptureFault
  | .ended => .notEnoughBytes
  | .failed fault => ofIo fault

/-- The wording of a capture fault. -/
def message : CaptureFault → String
  | .invalidMagic => "capture contains invalid magic bytes"
  | .unsupportedVersion version => s!"unsupported capture version: {version.toNat}"
  | .notEnoughBytes => "capture data does not contain enough bytes"
  | .badDigest _ => "capture digest is not valid UTF-8"
  | .digestTooLong bytes => s!"digest of {bytes} bytes is too long to store"
  | .addressOverflow offset base =>
      "offset " ++ Word.hexOffset offset ++ " does not fit in 64 bits with base address "
        ++ Word.hexOffset base
  | .io _ => "IO Error:"

/-- The causes of a capture fault. -/
def causes : CaptureFault → List String
  | .badDigest fault => [fault.message]
  | .io fault => Explained.chain fault
  | _ => []

instance : Explained CaptureFault := ⟨message, causes⟩

end CaptureFault

end ExecTruth
